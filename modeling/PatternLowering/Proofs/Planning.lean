import Mathlib
import PatternLowering.Lowering

/-!
# What the pass does, in order

Which sites the walk lowers and where it declares temporaries depends on the program alone, not on
what has been done before. So the walk can be planned ahead, and the pass carries the plan out.
-/

namespace PatternLowering

/-- One thing the pass does. -/
inductive Action where
  | lower (retain : Bool) (n : NodeId)
  | declareTemps (n : NodeId) (statements : List NodeId)
  | tooDeep (n : Option NodeId)
deriving DecidableEq, Repr

/-- The pattern that the action lowers. -/
def Action.site? : Action → Option NodeId
  | lower _ n => some n
  | _ => none

def Action.run (input : PassInput) : Action → Pass → Pass
  | lower retain n, p => p.lower input retain n
  | declareTemps n statements, p => p.declareTemps input n statements
  | tooDeep n, p => p.record (.loweringTooDeep (n.getD noNode))

lemma Action.run_lower (input : PassInput) (retain : Bool) (n : NodeId) (p : Pass) :
    (lower retain n).run input p = p.lower input retain n := rfl

lemma Action.run_declareTemps (input : PassInput) (n : NodeId) (statements : List NodeId)
    (p : Pass) : (declareTemps n statements).run input p = p.declareTemps input n statements := rfl

/-- A step at one node: to walk over another one or to act. -/
inductive Step where
  | walk (retain : Bool) (n : Option NodeId)
  | act (action : Action)
deriving DecidableEq, Repr

namespace Step

/-- Walks over several nodes. -/
def walks (retain : Bool) (ns : List NodeId) : List Step := ns.map fun n => walk retain (some n)

variable (t : Table) (retain : Bool)

def ofPattern (n : NodeId) : List Step :=
  walks true (t.patternExpressions n) ++ [act (.lower retain n)]

/-- The temporaries of the function `n` are declared in its body. -/
def ofBody (n body : NodeId) : List Step :=
  match t.form? body with
  | some (.block statements) => [act (.declareTemps n statements)]
  | _ => []

def ofFunction (n : NodeId) (parts : FunctionParts) : List Step :=
  (parts.parameters.filter t.isPattern).flatMap (ofPattern t retain) ++
    walk retain (some parts.body) :: ofBody t n parts.body

/-- The steps at a node of the given form. -/
def ofForm (n : NodeId) (form : Form) : List Step :=
  match form with
  | .declarator target value =>
    if t.isPattern target then walk retain value :: ofPattern t retain target
    else walks retain form.children
  | .assignment target .plain value =>
    if t.isPattern target then walk retain (some value) :: ofPattern t retain target
    else walks retain form.children
  | .forEach _ head subject body =>
    (if t.isPattern head then ofPattern t retain head else walks retain [head]) ++
      walks retain [subject, body]
  | .functionDeclaration parts => ofFunction t retain n parts
  | .functionExpression parts => ofFunction t retain n parts
  | .objectPattern _ => walks true (t.patternExpressions n)
  | .arrayPattern _ => walks true (t.patternExpressions n)
  | _ => walks retain form.children

/-- The actions of a step, where `inner` plans the walks. -/
def actions (inner : Bool → Option NodeId → List Action) : Step → List Action
  | walk retain n => inner retain n
  | act action => [action]

end Step

namespace Table

/-- The actions of a walk, with `depth` levels left. -/
def planWithin (t : Table) : (depth : Nat) → Bool → Option NodeId → List Action
  | 0, _, n => [.tooDeep n]
  | depth + 1, retain, some n =>
    match t.form? n with
    | some form => (Step.ofForm t retain n form).flatMap (Step.actions (t.planWithin depth))
    | none => []
  | _ + 1, _, none => []

/-- The actions of the whole pass. -/
def plan (t : Table) (root : NodeId) : List Action :=
  t.planWithin maxTreeDepth false (some root) ++
    match t.form? root with
    | some (.program statements) => [.declareTemps root statements]
    | _ => []

end Table

namespace Pass

/-- Carries out actions one after the other. -/
def perform (input : PassInput) (actions : List Action) (p : Pass) : Pass :=
  actions.foldl (fun p action => action.run input p) p

variable {input : PassInput} {p : Pass}

@[simp] lemma perform_nil : p.perform input [] = p := rfl

@[simp] lemma perform_cons (action : Action) (later : List Action) :
    p.perform input (action :: later) = (action.run input p).perform input later := rfl

@[simp] lemma perform_append (first second : List Action) :
    p.perform input (first ++ second) = (p.perform input first).perform input second :=
  List.foldl_append

section Steps

variable {walk : Walk} {inner : Bool → Option NodeId → List Action}
  (planned : ∀ retain n p, walk retain n p = p.perform input (inner retain n))

include planned

lemma all_eq_perform (retain : Bool) (ns : List NodeId) (p : Pass) :
    walk.all retain ns p =
      p.perform input ((Step.walks retain ns).flatMap (Step.actions inner)) := by
  induction ns generalizing p with
  | nil => rfl
  | cons n later ih =>
    change walk.all retain later (walk retain (some n) p) = _
    rw [ih, planned]
    simp [Step.walks, Step.actions]

lemma lowerPattern_eq_perform (retain : Bool) (n : NodeId) (p : Pass) :
    p.lowerPattern input walk retain n =
      p.perform input ((Step.ofPattern input.table retain n).flatMap (Step.actions inner)) := by
  rw [lowerPattern, all_eq_perform planned, Step.ofPattern, List.flatMap_append, perform_append]
  rfl

lemma visitFunction_eq_perform (retain : Bool) (n : NodeId) (parts : FunctionParts) (p : Pass) :
    p.visitFunction input walk retain n parts =
      p.perform input ((Step.ofFunction input.table retain n parts).flatMap
        (Step.actions inner)) := by
  have patterns (ns : List NodeId) (p : Pass) :
      ns.foldl (fun p pattern => p.lowerPattern input walk retain pattern) p =
        p.perform input
          ((ns.flatMap (Step.ofPattern input.table retain)).flatMap (Step.actions inner)) := by
    induction ns generalizing p with
    | nil => rfl
    | cons n later ih =>
      rw [List.foldl_cons, ih, lowerPattern_eq_perform planned]
      simp
  rw [visitFunction, patterns, Step.ofFunction, List.flatMap_append, perform_append, planned,
    List.flatMap_cons, perform_append, Step.ofBody]
  cases input.table.form? parts.body with
  | none => rfl
  | some form => cases form <;> rfl

lemma visitForm_eq_perform (retain : Bool) (n : NodeId) (form : Form) (p : Pass) :
    p.visitForm input walk retain n form =
      p.perform input ((Step.ofForm input.table retain n form).flatMap (Step.actions inner)) := by
  cases form with
  | declarator target value =>
    simp only [visitForm, Step.ofForm]
    split
    · rw [lowerPattern_eq_perform planned, planned, List.flatMap_cons, perform_append]
      rfl
    · exact all_eq_perform planned ..
  | assignment target op value =>
    cases op with
    | plain =>
      simp only [visitForm, Step.ofForm]
      split
      · rw [lowerPattern_eq_perform planned, planned, List.flatMap_cons, perform_append]
        rfl
      · exact all_eq_perform planned ..
    | _ => exact all_eq_perform planned ..
  | forEach isOf head subject body =>
    simp only [visitForm, Step.ofForm]
    rw [List.flatMap_append, perform_append, all_eq_perform planned]
    split
    · rw [lowerPattern_eq_perform planned]
    · rw [planned]
      simp [Step.walks, Step.actions]
  | functionDeclaration parts => exact visitFunction_eq_perform planned ..
  | functionExpression parts => exact visitFunction_eq_perform planned ..
  | _ => exact all_eq_perform planned ..

end Steps

/-- The walk carries out its plan. -/
lemma visit_eq_perform (depth : Nat) (retain : Bool) (n : Option NodeId) (p : Pass) :
    visit input depth retain n p = p.perform input (input.table.planWithin depth retain n) := by
  induction depth generalizing retain n p with
  | zero => rfl
  | succ depth ih =>
    cases n with
    | none => rfl
    | some n =>
      rw [visit, Table.planWithin]
      cases input.table.form? n with
      | none => rfl
      | some form => exact visitForm_eq_perform ih ..

/-- The note with which the pass ends. -/
def finish (input : PassInput) (p : Pass) : Event :=
  .finished input.file p.sites p.buffer.size p.buffer.replacements p.diagnostics.length

/-- So does the pass, which adds a note to the log. -/
lemma run_eq_perform (input : PassInput) (root : NodeId) (p : Pass) : p.run input root =
    (p.perform input (input.table.plan root)).record
      ((p.perform input (input.table.plan root)).finish input) := by
  rw [Table.plan, perform_append, ← visit_eq_perform, run]
  generalize visit input maxTreeDepth false (some root) p = q
  cases input.table.form? root with
  | none => rfl
  | some form => cases form <;> rfl

end Pass

namespace Lowering

/-- What the pass over a text works with. -/
def passInput (file source : String) (options : Options) : PassInput :=
  ⟨(Parsed.ofText source.toList).table, file, .ofText source.toList, options⟩

/-- The state in which the pass over a text starts. -/
def passStart (file source : String) : Pass :=
  let text := source.toList
  let parsed := Parsed.ofText text
  let binding := Binding.ofTable parsed.table parsed.root
  ⟨.ofText text, binding.scopes, [], 0,
    #[parsedEvent file (Reading.ofText text)] ++ (boundEvents binding).toArray⟩

/-- The actions of the pass over a text. -/
def passPlan (source : String) : List Action :=
  (Parsed.ofText source.toList).table.plan (Parsed.ofText source.toList).root

/-- A text that does not parse has its errors as outcome. -/
lemma lower_of_faulty (file : String) {source : String} (options : Options)
    (faulty : (Parsed.ofText source.toList).hasErrors = true) :
    lower file source options = ⟨file, none,
      (Parsed.ofText source.toList).diagnostics file source.toList, 0,
      #[parsedEvent file (Reading.ofText source.toList)].push
        (.parseFailed ((Parsed.ofText source.toList).diagnostics file source.toList).length)⟩ :=
  if_pos faulty

/-- Only a text that parses has an output. -/
lemma clean_of_output {file source output : String} {options : Options}
    (isOutput : (lower file source options).output = some output) :
    (Parsed.ofText source.toList).hasErrors = false := by
  by_contra faulty
  rw [lower_of_faulty file options (Bool.eq_true_of_not_eq_false faulty)] at isOutput
  cases isOutput

/-- A text that parses without errors is lowered by carrying out the plan. -/
lemma lower_eq_perform (file : String) {source : String} (options : Options)
    (clean : (Parsed.ofText source.toList).hasErrors = false) :
    let pass := (passStart file source).perform (passInput file source options) (passPlan source)
    (lower file source options).diagnostics = pass.diagnostics ∧
      (lower file source options).output = some (String.ofList pass.buffer.apply) ∧
      (lower file source options).edits = pass.buffer.size ∧
      (lower file source options).log = pass.log.push
        (pass.finish (passInput file source options)) := by
  have ran : (passStart file source).run (passInput file source options)
      (Parsed.ofText source.toList).root =
        ((passStart file source).perform (passInput file source options) (passPlan source)).record
          (((passStart file source).perform (passInput file source options)
            (passPlan source)).finish (passInput file source options)) :=
    Pass.run_eq_perform (passInput file source options) _ _
  have parsed : lower file source options =
      let pass := (passStart file source).run (passInput file source options)
        (Parsed.ofText source.toList).root
      ⟨file, some (String.ofList pass.buffer.apply), pass.diagnostics, pass.buffer.size,
        pass.log⟩ :=
    if_neg (Bool.eq_false_iff.mp clean)
  rw [parsed, ran]
  generalize (passStart file source).perform (passInput file source options)
    (passPlan source) = pass
  exact ⟨rfl, rfl, rfl, rfl⟩

end Lowering

end PatternLowering

import PatternLowering.Proofs.Faults
import PatternLowering.Proofs.Registers

/-!
# Where temporaries are declared

Each function, and the program, declares its temporaries once, after all sites in it are done: no
site that comes later takes names from its scope.
-/

namespace PatternLowering

open List Step

/-- The function or program whose temporaries an action declares. -/
def Action.scope? : Action → Option NodeId
  | declareTemps n _ => some n
  | _ => none

/-- The functions and programs whose temporaries are declared, in order. -/
def declarations (actions : List Action) : List NodeId := actions.filterMap Action.scope?

lemma declarations_append (first second : List Action) :
    declarations (first ++ second) = declarations first ++ declarations second :=
  filterMap_append

lemma mem_declarations {actions : List Action} {n : NodeId} :
    n ∈ declarations actions ↔ ∃ statements, .declareTemps n statements ∈ actions := by
  rw [declarations, mem_filterMap]
  constructor
  · rintro ⟨action, mem, isScope⟩
    cases action with
    | declareTemps m statements =>
      cases isScope
      exact ⟨statements, mem⟩
    | lower retain m => cases isScope
    | tooDeep m => cases isScope
  · rintro ⟨statements, mem⟩
    exact ⟨_, mem, rfl⟩

namespace Table

variable {t : Table} {opens closes : Nat → Prop} {n m f : NodeId}

def IsFunction (t : Table) (n : NodeId) : Prop :=
  ∃ form parts, t.form? n = some form ∧ form.function? = some parts

/-- The statements of the body of a function. -/
def HasBody (t : Table) (n : NodeId) (statements : List NodeId) : Prop :=
  ∃ form parts, t.form? n = some form ∧ form.function? = some parts ∧
    t.form? parts.body = some (.block statements)

lemma not_isFunction_of_form {form : Form} (found : t.form? n = some form)
    (plain : form.function? = none) : ¬ t.IsFunction n := by
  rintro ⟨form', parts, found', isFunction⟩
  cases found.symm.trans found'
  cases plain.symm.trans isFunction

lemma IsFunction.children_ne_nil (isFunction : t.IsFunction n) : t.children n ≠ [] := by
  obtain ⟨form, parts, found, isFunction⟩ := isFunction
  refine ne_nil_of_mem (mem_children_of_form found (?_ : parts.body ∈ form.children))
  simp [Form.children_of_function isFunction, FunctionParts.children]

lemma IsFunction.lt_size (isFunction : t.IsFunction n) : n < t.size := by
  obtain ⟨_, _, found, _⟩ := isFunction
  obtain ⟨node, isNode, _⟩ := form?_eq_some.mp found
  exact Table.lt_size isNode

lemma not_isFunction_of_leaf (tidy : t.Tidy opens closes) (leaf : t.children n = [])
    (under : t.Under n f) : ¬ t.IsFunction f := by
  intro isFunction
  rcases under.cases_part tidy with rfl | ⟨part, isPart, _⟩
  · exact isFunction.children_ne_nil leaf
  · rw [leaf] at isPart
    cases isPart

end Table

/-- A function inside of a pattern lies in one of its expressions. -/
lemma Fits.function_under {t : Table} {opens closes : Nat → Prop} {n f : NodeId} {role : Role}
    (tidy : t.Tidy opens closes) (fits : Fits t role n) (inPattern : role.inPattern)
    (under : t.Under n f) (isFunction : t.IsFunction f) :
    ∃ e ∈ t.patternExpressions n, t.Under e f := by
  induction n using Nat.strongRecOn generalizing role with
  | _ n ih =>
    obtain ⟨form, _, found, _⟩ := fits.form
    rw [Table.patternExpressions_eq tidy found]
    cases fits.patternShape inPattern found with
    | leaf name named =>
      subst named
      have leaf : t.children n = [] := by simp [Table.children, found, Form.children]
      exact absurd isFunction (Table.not_isFunction_of_leaf tidy leaf under)
    | reference own simple plain nested => exact ⟨n, by simp [own], under⟩
    | compound isPart ordered nested own keys =>
      rcases under.cases_part tidy with rfl | ⟨part, isChild, under⟩
      · obtain ⟨form', parts, found', isFunction⟩ := isFunction
        cases found.symm.trans found'
        cases form <;> first | (cases isPart; done) | cases isFunction
      · have isChild' : part ∈ form.children := by simpa [Table.children, found] using isChild
        rcases keys part isChild' with mem | isKey
        · rcases mem_append.mp mem with mem | mem
          · exact ⟨part, mem_append_left _ mem, under⟩
          · obtain ⟨role', inPattern', fits'⟩ := nested part mem
            obtain ⟨e, isExpression, under⟩ := ih part (tidy.below isChild) fits' inPattern' under
            exact ⟨e, mem_append_right _ (mem_flatMap.mpr ⟨part, mem, isExpression⟩), under⟩
        · exact absurd isFunction (Table.not_isFunction_of_leaf tidy
            (isKey.token_leaf (.inr rfl)).1 under)

namespace Step

variable {t : Table} {retain : Bool} {n : NodeId} {form : Form}

lemma mem_of_walk {retain' : Bool} {ns : List NodeId}
    (mem : walk retain' (some n) ∈ walks retain ns) : n ∈ ns := by
  obtain ⟨m, isM, same⟩ := mem_map.mp mem
  cases same
  exact isM

lemma walk_not_mem_ofBody {retain' : Bool} {m : Option NodeId} {body : NodeId} :
    walk retain' m ∉ ofBody t n body := by
  unfold ofBody
  split <;> simp

lemma ofBody_eq_cons {body : NodeId} {step : Step} {later : List Step}
    (whole : ofBody t n body = step :: later) : ∃ statements,
      t.form? body = some (.block statements) ∧ step = act (.declareTemps n statements) ∧
        later = [] := by
  unfold ofBody at whole
  split at whole
  · rename_i isBlock
    cases whole
    exact ⟨_, isBlock, rfl, rfl⟩
  · cases whole

lemma ofForm_of_function {parts : FunctionParts} (isFunction : form.function? = some parts) :
    ofForm t retain n form = ofFunction t retain n parts := by
  cases form <;> cases isFunction <;> rfl

lemma declarations_ofForm (noFunction : form.function? = none) :
    (ofForm t retain n form).filter isDeclaration = [] := by
  unfold ofForm
  split
  · split
    · simp [isDeclaration]
    · exact declarations_walks ..
  · split
    · simp [isDeclaration]
    · exact declarations_walks ..
  · rw [filter_append]
    split <;> simp
  · cases noFunction
  · cases noFunction
  · exact declarations_walks ..
  · exact declarations_walks ..
  · exact declarations_walks ..

end Step

section Declaring

variable {t : Table} {opens closes : Nat → Prop} {inner : Bool → Option NodeId → List Action}

/-- The walk declares the temporaries of each function under a node, once. -/
lemma planWithin_declares (tidy : t.Tidy opens closes) {depth : Nat} {retain : Bool} {n : NodeId}
    (walkable : t.Walkable n) (shallow : t.Shallow depth n) :
    t.Gathers t.IsFunction (declarations (t.planWithin depth retain (some n))) [n] := by
  induction depth generalizing retain n with
  | zero => exact absurd (shallow n .self) (by omega)
  | succ depth ih =>
    obtain ⟨role, fits⟩ := walkable.fits
    obtain ⟨form, tops, actions, found, same, gathers, within, rest⟩ := planWithin_compose
      (Table.Gathers.composes_filterMap t t.IsFunction Action.scope?) tidy depth retain walkable
      (fun _ => by cases depth <;> exact .nil)
      (fun _ e ok ⟨_, mem, under⟩ => ih ok ((shallow.child tidy mem).under tidy under))
      fun {m _} fits _ inside => by
        have none : [Action.lower retain m].filterMap Action.scope? = [] := rfl
        rw [filterMap_append, none, append_nil]
        refine inside.congr fun f isFunction => ⟨?_, ?_⟩
        · rintro ⟨e, mem, under⟩
          exact ⟨_, by simp, (fits.expressions_walkable tidy rfl mem).2.trans under⟩
        · rintro ⟨top, isTop, under⟩
          cases mem_singleton.mp isTop
          exact fits.function_under tidy rfl under isFunction
    have all : t.Gathers t.IsFunction (declarations actions) (t.children n) := by
      refine gathers.congr fun m isFunction => ⟨?_, ?_⟩
      · rintro ⟨top, isTop, under⟩
        exact ⟨top, within top isTop, under⟩
      · rintro ⟨part, isChild, under⟩
        rcases rest part isChild with isTop | ⟨leaf, _⟩
        · exact ⟨part, isTop, under⟩
        · exact absurd isFunction (Table.not_isFunction_of_leaf tidy leaf under)
    rw [same, declarations, filterMap_append]
    refine (all.node tidy ?_).perm perm_append_comm
    cases function : form.function? with
    | none =>
      refine .inr ⟨Table.not_isFunction_of_form found function, ?_⟩
      rw [declarations_ofForm function]
      rfl
    | some parts =>
      have body : Fits t .block parts.body := by
        obtain ⟨_, slots, fitting⟩ := fits.parts found
        rw [Role.slots_function function slots] at fitting
        exact fitting (.block, parts.body) (by simp [Role.functionParts])
      obtain ⟨statements, isBlock⟩ := body.block_form
      refine .inl ⟨⟨_, _, found, function⟩, ?_⟩
      rw [ofForm_of_function function, declarations_ofFunction, Step.ofBody, isBlock]
      rfl

/-- Where temporaries are declared, all sites under that function or program are done. -/
def Settles (t : Table) (actions : List Action) : Prop :=
  ∀ before n statements after, actions = before ++ .declareTemps n statements :: after →
    ∀ m, t.IsSite m → t.Under n m → m ∈ lowered before

namespace Settles

variable {actions actions' : List Action}

lemma of_none (none : declarations actions = []) : Settles t actions := by
  rintro before n statements after rfl m _ _
  have mem : n ∈ declarations (before ++ .declareTemps n statements :: after) :=
    mem_declarations.mpr ⟨statements, by simp⟩
  rw [none] at mem
  cases mem

lemma append (first : Settles t actions) (second : Settles t actions') :
    Settles t (actions ++ actions') := by
  intro before n statements after whole m site under
  rcases append_eq_append_iff.mp whole with ⟨more, rfl, split⟩ | ⟨more, rfl, split⟩
  · rw [lowered_append]
    exact mem_append_right _ (second _ _ _ _ split m site under)
  · cases more with
    | nil => cases second [] _ _ _ split.symm m site under
    | cons action more =>
      cases split
      exact first _ _ _ _ rfl m site under

/-- A declaration may follow once all sites are done. -/
lemma declare {n : NodeId} {statements : List NodeId} (settles : Settles t actions)
    (all : ∀ m, t.IsSite m → t.Under n m → m ∈ lowered actions) :
    Settles t (actions ++ [.declareTemps n statements]) := by
  intro before n' statements' after whole m site under
  rcases eq_nil_or_concat after with rfl | ⟨later, last, rfl⟩
  · obtain ⟨rfl, same⟩ := append_inj' whole rfl
    cases same
    exact all m site under
  · have whole' : actions ++ [.declareTemps n statements] =
        (before ++ .declareTemps n' statements' :: later) ++ [last] := by simpa using whole
    exact settles _ _ _ _ (append_inj' whole' rfl).1 m site under

lemma flatMap {steps : List Step} (each : ∀ step ∈ steps, Settles t (step.actions inner)) :
    Settles t (steps.flatMap (Step.actions inner)) := by
  induction steps with
  | nil => exact of_none rfl
  | cons step later ih =>
    exact (each step (by simp)).append (ih fun step mem => each step (by simp [mem]))

end Settles

/-- The walks that start at a node lead to nodes under its parts. -/
lemma WalkShape.walkable (tidy : t.Tidy opens closes) {n e : NodeId} {form : Form}
    {retain retain' : Bool} {steps : List Step} (shape : WalkShape t retain n form steps)
    (mem : Step.walk retain' (some e) ∈ steps) :
    t.Walkable e ∧ ∃ m ∈ form.children, t.Under m e := by
  have expression {m : NodeId} {declared : Bool} (fits : Fits t (.target declared) m)
      (mem : Step.walk retain' (some e) ∈ Step.ofPattern t retain m) :
      t.Walkable e ∧ t.Under m e := by
    rcases mem_append.mp mem with mem | mem
    · exact fits.expressions_walkable tidy rfl (mem_of_walk mem)
    · cases mem_singleton.mp mem
  have pattern {m : NodeId} {declared : Bool} (isPart : m ∈ form.children)
      (fits : Fits t (.target declared) m)
      (mem : Step.walk retain' (some e) ∈ Step.ofPattern t retain m) :
      t.Walkable e ∧ ∃ m ∈ form.children, t.Under m e :=
    ⟨(expression fits mem).1, m, isPart, (expression fits mem).2⟩
  cases shape with
  | plain parts =>
    have isPart := mem_of_walk mem
    exact ⟨parts e isPart, e, isPart, .self⟩
  | @site target value _ children isPattern fits written _ =>
    rcases mem_cons.mp mem with same | mem
    · cases same
      exact ⟨written e rfl, e, by simp [children], .self⟩
    · exact pattern (by simp [children]) fits mem
  | @loop isOf head subject body isLoop isPattern fits parts =>
    have children : form.children = [head, subject, body] := by rw [isLoop]; rfl
    rcases mem_append.mp mem with mem | mem
    · exact pattern (by simp [children]) fits mem
    · have isPart := mem_of_walk mem
      exact ⟨parts e isPart, e, children ▸ mem_cons_of_mem _ isPart, .self⟩
  | @function parts isFunction name parameters body =>
    have children := Form.children_of_function isFunction
    rcases mem_append.mp mem with mem | mem
    · obtain ⟨m, isParameter, mem⟩ := mem_flatMap.mp mem
      have isParameter := (mem_filter.mp isParameter).1
      exact pattern (by simp [children, FunctionParts.children, isParameter])
        (parameters m isParameter) mem
    · rcases mem_cons.mp mem with same | mem
      · cases same
        exact ⟨body.walkable rfl, _, by simp [children, FunctionParts.children], .self⟩
      · exact absurd mem walk_not_mem_ofBody

/-- The walk does all sites under a function before it declares the temporaries. -/
lemma planWithin_settles (tidy : t.Tidy opens closes) {depth : Nat} {retain : Bool} {n : NodeId}
    (walkable : t.Walkable n) (shallow : t.Shallow depth n) :
    Settles t (t.planWithin depth retain (some n)) := by
  induction depth generalizing retain n with
  | zero => exact absurd (shallow n .self) (by omega)
  | succ depth ih =>
    have covers : t.Covers (lowered (t.planWithin (depth + 1) retain (some n))) [n] :=
      planWithin_covers tidy walkable shallow
    obtain ⟨role, fits⟩ := walkable.fits
    obtain ⟨form, _, found, _⟩ := fits.form
    have planned : t.planWithin (depth + 1) retain (some n) =
        (Step.ofForm t retain n form).flatMap (Step.actions (t.planWithin depth)) := by
      rw [Table.planWithin, found]
    rw [planned] at covers ⊢
    have shape := walkable.shape retain found
    have each (step : Step) (mem : step ∈ Step.ofForm t retain n form)
        (plain : step.isDeclaration = false) : Settles t (step.actions (t.planWithin depth)) := by
      cases step with
      | walk retain' e =>
        cases e with
        | none => exact .of_none (by cases depth <;> rfl)
        | some e =>
          obtain ⟨walkable', m, isPart, under⟩ := shape.walkable tidy mem
          exact ih walkable'
            ((shallow.child tidy (Table.mem_children_of_form found isPart)).under tidy under)
      | act action =>
        cases action with
        | lower retain' m => exact .of_none rfl
        | tooDeep m => exact .of_none rfl
        | declareTemps m statements => cases plain
    cases function : form.function? with
    | none =>
      refine .flatMap fun step mem => each step mem ?_
      by_contra declares
      have mem' : step ∈ (Step.ofForm t retain n form).filter Step.isDeclaration :=
        mem_filter.mpr ⟨mem, Bool.eq_true_of_not_eq_false declares⟩
      rw [declarations_ofForm function] at mem'
      cases mem'
    | some parts =>
      let first := (parts.parameters.filter t.isPattern).flatMap (Step.ofPattern t retain) ++
        [Step.walk retain (some parts.body)]
      have split : Step.ofForm t retain n form = first ++ Step.ofBody t n parts.body := by
        rw [ofForm_of_function function]
        simp [Step.ofFunction, first]
      have plain : first.filter Step.isDeclaration = [] := by
        simp [first, filter_flatMap, Step.isDeclaration]
      have settles : Settles t (first.flatMap (Step.actions (t.planWithin depth))) := by
        refine .flatMap fun step mem => each step (split ▸ mem_append_left _ mem) ?_
        exact Bool.eq_false_iff.mpr (filter_eq_nil_iff.mp plain step mem)
      rw [split, flatMap_append] at covers ⊢
      cases body : Step.ofBody t n parts.body with
      | nil => exact settles.append (.of_none rfl)
      | cons step later =>
        obtain ⟨statements, _, rfl, rfl⟩ := ofBody_eq_cons body
        refine settles.declare fun m site under => ?_
        have mem := (covers.mem m).mpr ⟨⟨n, by simp, under⟩, site⟩
        rw [body, lowered_append, mem_append] at mem
        rcases mem with mem | mem
        · exact mem
        · cases mem

/-- What is declared belongs to the body of a function. -/
lemma hasBody_of_mem_planWithin {depth : Nat} {retain : Bool} {n : Option NodeId} {m : NodeId}
    {statements : List NodeId}
    (mem : .declareTemps m statements ∈ t.planWithin depth retain n) : t.HasBody m statements := by
  induction depth generalizing retain n with
  | zero => cases mem_singleton.mp mem
  | succ depth ih =>
    cases n with
    | none => cases mem
    | some n =>
      cases found : t.form? n with
      | none => simp [Table.planWithin, found] at mem
      | some form =>
        rw [Table.planWithin, found] at mem
        obtain ⟨step, isStep, mem⟩ := mem_flatMap.mp mem
        cases step with
        | walk retain' e => exact ih mem
        | act action =>
          cases mem_singleton.mp mem
          have declares := mem_filter.mpr ⟨isStep, (rfl : Step.isDeclaration _ = true)⟩
          cases function : form.function? with
          | none =>
            rw [declarations_ofForm function] at declares
            cases declares
          | some parts =>
            rw [ofForm_of_function function, declarations_ofFunction] at declares
            cases body : Step.ofBody t n parts.body with
            | nil =>
              rw [body] at declares
              cases declares
            | cons step later =>
              obtain ⟨statements', isBlock, rfl, rfl⟩ := ofBody_eq_cons body
              rw [body] at declares
              cases mem_singleton.mp declares
              exact ⟨form, parts, found, function, isBlock⟩

end Declaring

namespace Table

variable {t : Table} {text : Text} {root n : NodeId} {statements : List NodeId}

/-- The program or a function, and the statements at whose start it declares its temporaries. -/
def Hoists (t : Table) (root n : NodeId) (statements : List NodeId) : Prop :=
  (n = root ∧ t.form? root = some (.program statements)) ∨ t.HasBody n statements

lemma HasBody.isFunction (body : t.HasBody n statements) : t.IsFunction n := by
  obtain ⟨form, parts, found, isFunction, _⟩ := body
  exact ⟨form, parts, found, isFunction⟩

lemma Hoists.unique {statements' : List NodeId} (hoists : t.Hoists root n statements)
    (hoists' : t.Hoists root n statements') : statements = statements' := by
  rcases hoists with ⟨rfl, found⟩ | ⟨form, parts, found, isFunction, isBlock⟩ <;>
    rcases hoists' with ⟨same, found'⟩ | ⟨form', parts', found', isFunction', isBlock'⟩
  · cases found.symm.trans found'
    rfl
  · cases found.symm.trans found'
    cases isFunction'
  · subst same
    cases found.symm.trans found'
    cases isFunction
  · cases found.symm.trans found'
    cases isFunction.symm.trans isFunction'
    cases isBlock.symm.trans isBlock'
    rfl

lemma Tree.not_isFunction_root (tree : t.Tree text root) : ¬ t.IsFunction root := by
  rintro ⟨form, parts, found, isFunction⟩
  obtain ⟨program, rfl⟩ := tree.form_root found
  cases isFunction

section Plans

variable (tree : t.Tree text root) (shallow : t.Shallow maxTreeDepth root)

include tree

lemma Tree.plan_eq : ∃ program, t.form? root = some (.program program) ∧
    t.plan root = t.planWithin maxTreeDepth false (some root) ++ [.declareTemps root program] := by
  obtain ⟨form, _, found, _⟩ := tree.fits.form
  obtain ⟨program, rfl⟩ := tree.form_root found
  exact ⟨program, found, by rw [Table.plan, found]⟩

include shallow

lemma Tree.covers : t.Covers (lowered (t.planWithin maxTreeDepth false (some root))) [root] :=
  planWithin_covers tree.tidy (tree.fits.walkable rfl) shallow

lemma Tree.gathers : t.Gathers t.IsFunction
    (declarations (t.planWithin maxTreeDepth false (some root))) [root] :=
  planWithin_declares tree.tidy (tree.fits.walkable rfl) shallow

lemma Tree.lowered_nodup : (lowered (t.plan root)).Nodup := by
  obtain ⟨program, _, plan⟩ := tree.plan_eq
  have none : lowered [.declareTemps root program] = [] := rfl
  rw [plan, lowered_append, none, append_nil]
  exact (tree.covers shallow).nodup

lemma Tree.declarations_nodup : (declarations (t.plan root)).Nodup := by
  obtain ⟨program, _, plan⟩ := tree.plan_eq
  have gathers := tree.gathers shallow
  rw [plan, declarations_append]
  refine nodup_append.mpr ⟨gathers.nodup, nodup_singleton root, fun a mem b isRoot same => ?_⟩
  cases mem_singleton.mp isRoot
  exact tree.not_isFunction_root (same ▸ ((gathers.mem a).mp mem).2)

lemma Tree.settles : Settles t (t.plan root) := by
  obtain ⟨program, _, plan⟩ := tree.plan_eq
  rw [plan]
  exact (planWithin_settles tree.tidy (tree.fits.walkable rfl) shallow).declare fun m site under =>
    ((tree.covers shallow).mem m).mpr ⟨⟨root, by simp, under⟩, site⟩

/-- Each function is declared with its own statements. -/
lemma Tree.declared_function (isFunction : t.IsFunction n) : ∃ statements,
    .declareTemps n statements ∈ t.planWithin maxTreeDepth false (some root) ∧
      t.HasBody n statements := by
  obtain ⟨statements, mem⟩ := mem_declarations.mp (((tree.gathers shallow).mem n).mpr
    ⟨⟨root, by simp, tree.under_root isFunction.lt_size⟩, isFunction⟩)
  exact ⟨statements, mem, hasBody_of_mem_planWithin mem⟩

/-- The program and the functions have statements of their own. -/
lemma Tree.hoists (scope : n = root ∨ t.IsFunction n) :
    ∃ statements, t.Hoists root n statements := by
  rcases scope with rfl | isFunction
  · obtain ⟨program, found, _⟩ := tree.plan_eq
    exact ⟨program, .inl ⟨rfl, found⟩⟩
  · obtain ⟨statements, _, body⟩ := tree.declared_function shallow isFunction
    exact ⟨statements, .inr body⟩

lemma Tree.declareTemps_mem (hoists : t.Hoists root n statements) :
    .declareTemps n statements ∈ t.plan root := by
  obtain ⟨program, found, plan⟩ := tree.plan_eq
  rw [plan, mem_append]
  rcases hoists with ⟨rfl, found'⟩ | body
  · cases found.symm.trans found'
    exact .inr (mem_singleton_self _)
  · obtain ⟨statements', mem, body'⟩ := tree.declared_function shallow body.isFunction
    have hoists : t.Hoists root n statements := .inr body
    rw [hoists.unique (.inr body')]
    exact .inl mem

/-- The pass declares the temporaries of each function, and of the program, once. By then all sites
in it are done. -/
lemma Tree.declares (hoists : t.Hoists root n statements) : ∃ before after,
    t.plan root = before ++ .declareTemps n statements :: after ∧
    n ∉ declarations before ∧ n ∉ declarations after ∧ ∀ m ∈ lowered after, ¬ t.Under n m := by
  obtain ⟨before, after, whole⟩ := append_of_mem (tree.declareTemps_mem shallow hoists)
  have nodup := tree.declarations_nodup shallow
  rw [whole, declarations_append] at nodup
  obtain ⟨_, later, apart⟩ := nodup_append.mp nodup
  refine ⟨before, after, whole, fun mem => apart n mem n (mem_cons_self ..) rfl,
    (nodup_cons.mp later).1, fun m mem under => ?_⟩
  have site : t.IsSite m := tree.plan_sites m (by
    rw [whole, lowered_append]
    exact mem_append_right _ mem)
  have earlier := tree.settles shallow _ _ _ _ whole m site under
  have sites := tree.lowered_nodup shallow
  rw [whole, lowered_append] at sites
  exact (nodup_append.mp sites).2.2 m earlier m mem rfl

end Plans

end Table

end PatternLowering

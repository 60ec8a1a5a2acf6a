import PatternLowering.Proofs.PatternParts
import PatternLowering.Proofs.Planning

/-!
# Where the walk goes

Apart from patterns, the walk goes from a node to all its parts. Patterns only stand as targets, and
there the walk goes to their expressions and lowers the pattern. So it comes to every pattern that
is not part of another one, and to each only once.
-/

namespace PatternLowering

open List

namespace Form

/-- Patterns may stand among the parts of a node of this form. -/
def hasTargets : Form → Bool
  | declarator _ _ => true
  | assignment _ .plain _ => true
  | forEach _ _ _ _ => true
  | functionDeclaration _ => true
  | functionExpression _ => true
  | _ => false

lemma children_of_function {form : Form} {parts : FunctionParts}
    (isFunction : form.function? = some parts) : form.children = parts.children := by
  cases form <;> cases isFunction <;> rfl

end Form

namespace Role

/-- Some roles are played for parents of one form only. -/
def isPlayedIn : Role → Form → Bool
  | declarator, .declarationList _ _ => true
  | declarator, _ => false
  | bindingProperty _, .objectPattern _ => true
  | bindingProperty _, _ => false
  | last _, .arrayPattern _ => true
  | last _, _ => false
  | _, _ => true

/-- A part of this form plays the role. If no pattern stands among the parts, it is no role of
patterns. -/
def Suits (form : Form) (role : Role) : Prop :=
  role.isPlayedIn form ∧ (form.isPatternPart = false → form.hasTargets = false → role.isPlain)

variable {form : Form} {parts : List (Role × NodeId)}

lemma suits_of_isPlain {role : Role} (played : role.isPlayedIn form) (plain : role.isPlain) :
    Suits form role :=
  ⟨played, fun _ _ => plain⟩

lemma suits_of_hasTargets {role : Role} (played : role.isPlayedIn form)
    (targets : form.hasTargets) : Suits form role :=
  ⟨played, fun _ none => absurd (none.symm.trans targets) Bool.false_ne_true⟩

lemma suits_of_isPatternPart {role : Role} (played : role.isPlayedIn form)
    (isPart : form.isPatternPart) : Suits form role :=
  ⟨played, fun none => absurd (none.symm.trans isPart) Bool.false_ne_true⟩

lemma functionParts_suit (targets : form.hasTargets) (function : FunctionParts) :
    ∀ part ∈ functionParts function, Suits form part.1 := by
  have suits (role : Role) (played : role.isPlayedIn form) : Suits form role :=
    suits_of_hasTargets played targets
  simp only [functionParts, forall_mem_append, forall_mem_map, forall_mem_singleton]
  exact ⟨⟨fun _ _ => suits _ rfl, fun _ _ => suits _ rfl⟩, suits _ rfl⟩

lemma expressionSlots_suit (known : expressionSlots form = some parts) :
    ∀ part ∈ parts, Suits form part.1 := by
  cases form with
  | functionExpression function =>
    cases known
    exact functionParts_suit rfl function
  | assignment left op value =>
    cases known
    refine forall_mem_cons.mpr ⟨?_, forall_mem_singleton.mpr (suits_of_isPlain rfl rfl)⟩
    cases op <;> first | exact suits_of_hasTargets rfl rfl | exact suits_of_isPlain rfl rfl
  | _ =>
    cases known <;>
      simp only [forall_mem_cons, forall_mem_map, not_mem_nil, false_imp_iff,
        implies_true, and_true]
    all_goals repeat' first | exact suits_of_isPlain rfl rfl | apply And.intro | intro

lemma statementSlots_suit (known : statementSlots form = some parts) :
    ∀ part ∈ parts, Suits form part.1 := by
  cases form with
  | functionDeclaration function =>
    cases known
    exact functionParts_suit rfl function
  | _ =>
    cases known <;>
      simp only [forall_mem_cons, forall_mem_append, forall_mem_map, not_mem_nil, false_imp_iff,
        implies_true, and_true]
    all_goals repeat' first
      | exact suits_of_isPlain rfl rfl
      | exact suits_of_hasTargets rfl rfl
      | apply And.intro
      | intro

lemma simpleSlots_suit (known : simpleSlots form = some parts) :
    ∀ part ∈ parts, Suits form part.1 := by
  cases form <;> cases known <;>
    simp only [forall_mem_cons, not_mem_nil, false_imp_iff, implies_true, and_true]
  all_goals repeat' first | exact suits_of_isPlain rfl rfl | apply And.intro

lemma targetSlots_suit {declared : Bool} (known : targetSlots declared form = some parts) :
    ∀ part ∈ parts, Suits form part.1 := by
  unfold targetSlots at known
  split at known
  · cases known
    simp
  · cases known
    exact forall_mem_map.mpr fun _ _ => suits_of_isPatternPart rfl rfl
  · cases known
    intro part mem
    rcases (mem_items mem).2 with role | role <;> rw [role] <;> exact suits_of_isPatternPart rfl rfl
  · split at known
    · cases known
    · exact simpleSlots_suit known

lemma slots_suit {role : Role} (known : role.slots form = some parts) :
    ∀ part ∈ parts, Suits form part.1 := by
  have key (computed : Bool) (form : Form) : Suits form (ofKey computed) := by
    cases computed <;> exact suits_of_isPlain rfl rfl
  unfold Role.slots at known
  split at known <;> first
    | exact expressionSlots_suit known
    | exact statementSlots_suit known
    | exact simpleSlots_suit known
    | exact targetSlots_suit known
    | cases known
    | (split at known <;> cases known)
  all_goals
    simp only [forall_mem_cons, forall_mem_append, forall_mem_map, not_mem_nil, false_imp_iff,
      implies_true, and_true]
  all_goals repeat' first
    | exact key _ _
    | exact suits_of_isPlain rfl rfl
    | exact suits_of_hasTargets rfl rfl
    | exact suits_of_isPatternPart rfl rfl
    | apply And.intro
    | intro

end Role

namespace Fits

variable {t : Table} {n : NodeId}

lemma walkable_of_target {declared : Bool} (fits : Fits t (.target declared) n)
    (noPattern : t.isPattern n = false) : t.Walkable n := by
  refine ⟨⟨_, fits⟩, fun {form} found => ?_⟩
  obtain ⟨_, slots, _⟩ := fits.parts found
  rw [Table.isPattern_of_form found] at noPattern
  cases form <;> first
    | rfl
    | (cases noPattern; done)
    | cases declared <;> cases slots

lemma walkable_of_loopHead (fits : Fits t .loopHead n) (noPattern : t.isPattern n = false) :
    t.Walkable n := by
  refine ⟨⟨_, fits⟩, fun {form} found => ?_⟩
  obtain ⟨_, slots, _⟩ := fits.parts found
  rw [Table.isPattern_of_form found] at noPattern
  cases form <;> first
    | rfl
    | (cases noPattern; done)
    | cases slots

lemma target_of_loopHead (fits : Fits t .loopHead n) (isPattern : t.isPattern n) :
    Fits t (.target false) n := by
  refine fits.as fun {form _} found slots => ?_
  rw [Table.isPattern_of_form found] at isPattern
  cases form <;> first | exact slots | cases isPattern

end Fits

namespace Role

variable {role : Role} {parts : List (Role × NodeId)}

lemma slots_declarator {left : NodeId} {value : Option NodeId}
    (known : role.slots (.declarator left value) = some parts) :
    parts = (target true, left) :: value.toList.map (expression, ·) := by
  cases role <;> first
    | (cases known; rfl)
    | cases known
    | (rename_i declared; cases declared <;> cases known)

lemma slots_assignment {left value : NodeId}
    (known : role.slots (.assignment left .plain value) = some parts) :
    parts = [(target false, left), (expression, value)] := by
  cases role <;> first
    | (cases known; rfl)
    | cases known
    | (rename_i declared; cases declared <;> cases known)

lemma slots_forEach {isOf : Bool} {head subject body : NodeId}
    (known : role.slots (.forEach isOf head subject body) = some parts) :
    parts = [(loopHead, head), (expression, subject), (statement, body)] := by
  cases role <;> first
    | (cases known; rfl)
    | cases known
    | (rename_i declared; cases declared <;> cases known)

lemma slots_function {form : Form} {function : FunctionParts}
    (isFunction : form.function? = some function) (known : role.slots form = some parts) :
    parts = functionParts function := by
  cases form <;> first
    | (cases isFunction; done)
    | cases isFunction
  all_goals cases role <;> first
    | (cases known; rfl)
    | cases known
    | (rename_i declared; cases declared <;> cases known)

end Role

/-- The steps at a node that the walk comes to. -/
inductive WalkShape (t : Table) (retain : Bool) (n : NodeId) (form : Form) : List Step → Prop where
  | plain (parts : ∀ m ∈ form.children, t.Walkable m) :
    WalkShape t retain n form (Step.walks retain form.children)
  | site {target : NodeId} {value : Option NodeId} {declared : Bool}
    (children : form.children = target :: value.toList) (isPattern : t.isPattern target)
    (fits : Fits t (.target declared) target) (written : ∀ v ∈ value, t.Walkable v)
    (context : form = .declarator target value ∨
      ∃ v, value = some v ∧ form = .assignment target .plain v) :
    WalkShape t retain n form (.walk retain value :: Step.ofPattern t retain target)
  | loop {isOf : Bool} {head subject body : NodeId}
      (isLoop : form = .forEach isOf head subject body)
    (isPattern : t.isPattern head) (fits : Fits t (.target false) head)
    (parts : ∀ m ∈ [subject, body], t.Walkable m) :
    WalkShape t retain n form (Step.ofPattern t retain head ++ Step.walks retain [subject, body])
  | function {parts : FunctionParts} (isFunction : form.function? = some parts)
    (name : ∀ m ∈ parts.name, Fits t .word m)
    (parameters : ∀ m ∈ parts.parameters, Fits t (.target true) m)
    (body : Fits t .block parts.body) :
    WalkShape t retain n form (Step.ofFunction t retain n parts)

lemma WalkShape.ofFunctionParts {t : Table} (retain : Bool) (n : NodeId) {form : Form}
    {parts : FunctionParts} (isFunction : form.function? = some parts)
    (inner : ∀ part ∈ Role.functionParts parts, Fits t part.1 part.2) :
    WalkShape t retain n form (Step.ofFunction t retain n parts) := by
  refine .function isFunction (fun m mem => ?_) (fun m mem => ?_) ?_
  · exact inner (.word, m) (by simp [Role.functionParts, Option.mem_def.mp mem])
  · exact inner (.target true, m) (by simp [Role.functionParts, mem])
  · exact inner (.block, parts.body) (by simp [Role.functionParts])

lemma Table.Walkable.shape {t : Table} {n : NodeId} (walkable : t.Walkable n) (retain : Bool)
    {form : Form} (found : t.form? n = some form) :
    WalkShape t retain n form (Step.ofForm t retain n form) := by
  obtain ⟨role, fits⟩ := walkable.fits
  obtain ⟨slots, known, inner⟩ := fits.parts found
  have plain := walkable.plain found
  have parts := Role.map_slots known
  by_cases targets : form.hasTargets
  · cases form with
    | declarator target value =>
      cases Role.slots_declarator known
      have fits : Fits t (.target true) target := inner (.target true, target) (by simp)
      have written : ∀ v ∈ value, t.Walkable v := fun v mem =>
        (inner (.expression, v) (by simp [Option.mem_def.mp mem])).walkable rfl
      simp only [Step.ofForm]
      split
      · rename_i isPattern
        exact .site rfl isPattern fits written (.inl rfl)
      · rename_i noPattern
        refine .plain fun m mem => ?_
        rcases mem_cons.mp mem with rfl | mem
        · exact fits.walkable_of_target (Bool.eq_false_iff.mpr noPattern)
        · exact written m (Option.mem_toList.mp mem)
    | assignment target op value =>
      cases op with
      | plain =>
        cases Role.slots_assignment known
        have fits : Fits t (.target false) target := inner (.target false, target) (by simp)
        have written : t.Walkable value := (inner (.expression, value) (by simp)).walkable rfl
        simp only [Step.ofForm]
        split
        · rename_i isPattern
          refine .site rfl isPattern fits (fun v mem => ?_) (.inr ⟨value, rfl, rfl⟩)
          cases mem
          exact written
        · rename_i noPattern
          refine .plain fun m mem => ?_
          rcases mem_cons.mp mem with rfl | mem
          · exact fits.walkable_of_target (Bool.eq_false_iff.mpr noPattern)
          · cases mem_singleton.mp mem
            exact written
      | _ => cases targets
    | forEach isOf head subject body =>
      cases Role.slots_forEach known
      have fits : Fits t .loopHead head := inner (.loopHead, head) (by simp)
      have rest : ∀ m ∈ [subject, body], t.Walkable m := by
        intro m mem
        rcases mem_cons.mp mem with rfl | mem
        · exact (inner (.expression, m) (by simp)).walkable rfl
        · cases mem_singleton.mp mem
          exact (inner (.statement, body) (by simp)).walkable rfl
      simp only [Step.ofForm]
      split
      · rename_i isPattern
        exact .loop rfl isPattern (fits.target_of_loopHead isPattern) rest
      · rename_i noPattern
        refine .plain fun m mem => ?_
        rcases mem_cons.mp mem with rfl | mem
        · exact fits.walkable_of_loopHead (Bool.eq_false_iff.mpr noPattern)
        · exact rest m mem
    | functionDeclaration function =>
      cases Role.slots_function rfl known
      exact .ofFunctionParts retain n rfl inner
    | functionExpression function =>
      cases Role.slots_function rfl known
      exact .ofFunctionParts retain n rfl inner
    | _ => cases targets
  · have walks : Step.ofForm t retain n form = Step.walks retain form.children := by
      unfold Step.ofForm
      split <;> first | rfl | (cases plain; done) | exact absurd rfl targets
    rw [walks]
    refine .plain fun m mem => ?_
    rw [← parts] at mem
    obtain ⟨part, isPart, rfl⟩ := mem_map.mp mem
    exact (inner part isPart).walkable
      ((Role.slots_suit known part isPart).2 plain (Bool.eq_false_iff.mpr targets))

namespace Table

/-- A pattern that is not part of another one. -/
def IsSite (t : Table) (n : NodeId) : Prop :=
  t.isPattern n ∧ ∀ p, t.isPattern p → n ∈ t.patternParts p → n = p

lemma lt_size_of_isPattern {t : Table} {n : NodeId} (isPattern : t.isPattern n) : n < t.size := by
  cases found : t.get? n with
  | none => simp [Table.isPattern, Table.form?, found] at isPattern
  | some node => exact lt_size found

/-- The nodes with the property `Q` under the nodes `tops`, each once. -/
structure Gathers (t : Table) (Q : NodeId → Prop) (found tops : List NodeId) : Prop where
  nodup : found.Nodup
  mem : ∀ m, m ∈ found ↔ (∃ top ∈ tops, t.Under top m) ∧ Q m

/-- The sites under the nodes `tops`, each once. -/
abbrev Covers (t : Table) (found tops : List NodeId) : Prop := t.Gathers t.IsSite found tops

variable {t : Table} {opens closes : Nat → Prop} {n m : NodeId}

/-- No node lies under both. -/
def Apart (t : Table) (n m : NodeId) : Prop := ∀ k, t.Under n k → ¬ t.Under m k

/-- What a walk leaves behind can be put together from what it leaves behind at nodes that are
apart. -/
structure Composes (t : Table) {α : Type} (R : List α → List NodeId → Prop) : Prop where
  nil : R [] []
  append : ∀ {found found' tops tops'}, R found tops → R found' tops' →
    (∀ a ∈ tops, ∀ b ∈ tops', t.Apart a b) → R (found ++ found') (tops ++ tops')

namespace Gathers

variable {Q : NodeId → Prop} {found found' tops tops' : List NodeId}

lemma nil : t.Gathers Q [] [] := ⟨nodup_nil, by simp⟩

lemma append (first : t.Gathers Q found tops) (second : t.Gathers Q found' tops')
    (apart : ∀ a ∈ tops, ∀ b ∈ tops', t.Apart a b) :
    t.Gathers Q (found ++ found') (tops ++ tops') := by
  refine ⟨nodup_append.mpr ⟨first.nodup, second.nodup, fun x mem y mem' same => ?_⟩, fun m => ?_⟩
  · subst same
    obtain ⟨⟨a, isTop, under⟩, _⟩ := (first.mem x).mp mem
    obtain ⟨⟨b, isTop', under'⟩, _⟩ := (second.mem x).mp mem'
    exact apart a isTop b isTop' x under under'
  · rw [mem_append, first.mem, second.mem]
    simp only [mem_append, or_and_right, exists_or]

/-- The same of nodes that are picked out of a list of other things. -/
lemma composes_filterMap {α : Type} (t : Table) (Q : NodeId → Prop) (pick : α → Option NodeId) :
    t.Composes fun found tops => t.Gathers Q (found.filterMap pick) tops := by
  refine ⟨nil, fun first second apart => ?_⟩
  rw [filterMap_append]
  exact first.append second apart

/-- Only the nodes with the property matter. -/
lemma congr (gathers : t.Gathers Q found tops)
    (same : ∀ m, Q m → ((∃ top ∈ tops, t.Under top m) ↔ ∃ top ∈ tops', t.Under top m)) :
    t.Gathers Q found tops' :=
  ⟨gathers.nodup, fun m => (gathers.mem m).trans (and_congr_left (same m))⟩

lemma perm (gathers : t.Gathers Q found tops) (same : found.Perm found') :
    t.Gathers Q found' tops :=
  ⟨same.nodup_iff.mp gathers.nodup, fun m => same.mem_iff.symm.trans (gathers.mem m)⟩

/-- What lies under a node is the node and what lies under its parts. -/
lemma node (tidy : t.Tidy opens closes) (gathers : t.Gathers Q found (t.children n))
    {own : List NodeId} (self : Q n ∧ own = [n] ∨ ¬ Q n ∧ own = []) :
    t.Gathers Q (own ++ found) [n] := by
  have isOwn (m : NodeId) : m ∈ own ↔ m = n ∧ Q n := by
    rcases self with ⟨holds, rfl⟩ | ⟨fails, rfl⟩
    · simp [holds]
    · simp [fails]
  have distinct : own.Nodup := by
    rcases self with ⟨_, rfl⟩ | ⟨_, rfl⟩
    · exact nodup_singleton n
    · exact nodup_nil
  refine ⟨nodup_append.mpr ⟨distinct, gathers.nodup, fun a mem b mem' same => ?_⟩, fun m => ?_⟩
  · obtain ⟨⟨part, isPart, under⟩, _⟩ := (gathers.mem b).mp mem'
    rw [← same, ((isOwn a).mp mem).1] at under
    exact Nat.not_le_of_lt (tidy.below isPart) (tidy.under_le under)
  · rw [mem_append, isOwn, gathers.mem]
    constructor
    · rintro (⟨rfl, holds⟩ | ⟨⟨part, isPart, under⟩, holds⟩)
      · exact ⟨⟨m, mem_singleton_self m, .self⟩, holds⟩
      · exact ⟨⟨n, mem_singleton_self n, .of_child tidy isPart under⟩, holds⟩
    · rintro ⟨⟨top, isTop, under⟩, holds⟩
      cases mem_singleton.mp isTop
      rcases under.cases_part tidy with rfl | inside
      · exact .inl ⟨rfl, holds⟩
      · exact .inr ⟨inside, holds⟩

end Gathers

/-- Everything that has a parent takes at least one byte. -/
lemma Tidy.wide_of_parent (tidy : t.Tidy opens closes) {parent : NodeId}
    (up : t.parent? n = some parent) : ∃ node, t.get? n = some node ∧ node.start < node.stop := by
  obtain ⟨outer, found, isPart⟩ := mem_children.mp (tidy.parents.mp up)
  obtain ⟨node, isNode, _, wide, _⟩ := (tidy.laid found).within isPart
  exact ⟨node, isNode, wide⟩

/-- Nodes that stand side by side have nothing under both. -/
lemma Laid.disjoint (tidy : t.Tidy opens closes) {lo hi : Nat} {ns : List NodeId}
    (laid : t.Laid lo ns hi) (first : n ∈ ns) (second : m ∈ ns) (other : n ≠ m) : t.Apart n m := by
  intro k under under'
  obtain ⟨node, isNode, _, wide, _⟩ := laid.within first
  obtain ⟨node', isNode', _, wide', _⟩ := laid.within second
  have spans : ∃ inner, t.get? k = some inner ∧ inner.start < inner.stop := by
    cases under with
    | self => exact ⟨node, isNode, wide⟩
    | part up _ => exact tidy.wide_of_parent up
  obtain ⟨inner, isInner, wide''⟩ := spans
  have := tidy.span_under under isNode isInner
  have := tidy.span_under under' isNode' isInner
  have := laid.apart first second isNode isNode' other
  omega

namespace Composes

variable {α : Type} {R : List α → List NodeId → Prop} {found found' : List α} {lo hi : Nat}
  {ns ms : List NodeId}

lemma beside (composes : t.Composes R) (tidy : t.Tidy opens closes) (laid : t.Laid lo (ns ++ ms) hi)
    (first : R found ns) (second : R found' ms) : R (found ++ found') (ns ++ ms) := by
  refine composes.append first second fun a isA b isB => ?_
  refine laid.disjoint tidy (mem_append_left _ isA) (mem_append_right _ isB) ?_
  exact (nodup_append.mp laid.nodup).2.2 a isA b isB

/-- What is left behind at nodes that stand side by side. -/
lemma along (composes : t.Composes R) (tidy : t.Tidy opens closes) (laid : t.Laid lo ns hi)
    {f : NodeId → List α} (each : ∀ n ∈ ns, R (f n) [n]) : R (ns.flatMap f) ns := by
  induction ns generalizing lo with
  | nil => exact composes.nil
  | cons n later ih =>
    have both : t.Laid lo ([n] ++ later) hi := laid
    obtain ⟨node, _, _, _, rest⟩ := laid
    exact composes.beside tidy both (each n (by simp))
      (ih rest fun m mem => each m (mem_cons_of_mem _ mem))

end Composes

end Table

namespace Fits

variable {t : Table} {n : NodeId}

/-- A declared target that is no pattern is a variable. -/
lemma variable_leaf (fits : Fits t (.target true) n) (noPattern : t.isPattern n = false) :
    t.children n = [] ∧ t.isPattern n = false := by
  refine ⟨?_, noPattern⟩
  obtain ⟨form, _, found, slots, _⟩ := fits.form
  rw [Table.isPattern_of_form found] at noPattern
  cases form <;> first
    | (cases slots; done)
    | (cases noPattern; done)
    | simp [Table.children, found, Form.children]

end Fits

namespace Table

variable {t : Table} {opens closes : Nat → Prop} {n m : NodeId}

section Levels

variable (tidy : t.Tidy opens closes)

include tidy

/-- Parents have greater numbers, so any bound above the number of nodes from `n` on is enough. -/
lemma ancestorsWithin_congr {bound bound' : Nat} (inside : n < t.size)
    (enough : t.size ≤ n + bound) (enough' : t.size ≤ n + bound') :
    t.ancestorsWithin bound n = t.ancestorsWithin bound' n := by
  induction bound generalizing n bound' with
  | zero => exact absurd enough (Nat.not_le_of_lt inside)
  | succ bound ih =>
    cases bound' with
    | zero => exact absurd enough' (Nat.not_le_of_lt inside)
    | succ bound' =>
      rw [ancestorsWithin, ancestorsWithin]
      cases up : t.parent? n with
      | none => rfl
      | some parent =>
        have step {b : Nat} (before : t.size ≤ n + (b + 1)) : t.size ≤ parent + b :=
          before.trans ((Nat.add_right_comm n b 1).le.trans
            (Nat.add_le_add_right (tidy.lt_parent up) b))
        have same : t.ancestorsWithin bound parent = t.ancestorsWithin bound' parent :=
          ih (tidy.parent_lt_size up) (step enough) (step enough')
        simp [same]

lemma ancestors_of_parent {parent : NodeId} (up : t.parent? n = some parent) :
    t.ancestors n = n :: t.ancestors parent := by
  have inside := tidy.parent_lt_size up
  have same : t.ancestorsWithin t.size parent = t.ancestorsWithin (t.size + 1) parent :=
    ancestorsWithin_congr tidy inside (Nat.le_add_left _ _)
      ((Nat.le_succ _).trans (Nat.le_add_left _ _))
  rw [ancestors, ancestorsWithin, up]
  simp [same, ancestors]

end Levels

/-- How many levels lie above a node, itself included. -/
def level (t : Table) (n : NodeId) : Nat := (t.ancestors n).length

lemma level_pos (t : Table) (n : NodeId) : 0 < t.level n := by
  simp [level, ancestors, ancestorsWithin]

lemma level_of_child (tidy : t.Tidy opens closes) (isPart : m ∈ t.children n) :
    t.level m = t.level n + 1 := by
  rw [level, ancestors_of_parent tidy (tidy.parent?_of_mem isPart), length_cons, level]

lemma level_le_of_under (tidy : t.Tidy opens closes) (under : t.Under n m) :
    t.level n ≤ t.level m := by
  induction under with
  | self => exact le_rfl
  | part up _ ih =>
    rw [level, level, ancestors_of_parent tidy up, length_cons]
    exact Nat.le_succ_of_le ih

/-- Nothing under `n` lies `depth` levels below it. -/
def Shallow (t : Table) (depth : Nat) (n : NodeId) : Prop :=
  ∀ m, t.Under n m → t.level m < depth + t.level n

namespace Shallow

variable {depth : Nat} (tidy : t.Tidy opens closes)

include tidy

lemma child (shallow : t.Shallow (depth + 1) n) (isPart : m ∈ t.children n) :
    t.Shallow depth m := by
  intro k under
  have up := level_of_child tidy isPart
  have := shallow k (.of_child tidy isPart under)
  omega

lemma under (shallow : t.Shallow depth n) (under : t.Under n m) : t.Shallow depth m := by
  have deeper := level_le_of_under tidy under
  intro k inner
  exact (shallow k (under.trans inner)).trans_le (by omega)

end Shallow

/-- A node without parts that is no pattern has no site. -/
lemma no_site_of_leaf (tidy : t.Tidy opens closes) (leaf : t.children n = [])
    (noPattern : t.isPattern n = false) (under : t.Under n m) : ¬ t.IsSite m := by
  intro site
  rcases under.cases_part tidy with rfl | ⟨part, isPart, _⟩
  · exact Bool.false_ne_true (noPattern.symm.trans site.1)
  · rw [leaf] at isPart
    cases isPart

/-- A pattern with another parent than a part of a pattern is a site. -/
lemma isSite_of_parent (tidy : t.Tidy opens closes) {form : Form} (isPattern : t.isPattern m)
    (isPart : m ∈ t.children n) (found : t.form? n = some form)
    (plain : form.isPatternPart = false) : t.IsSite m := by
  refine ⟨isPattern, fun p _ mem => ?_⟩
  by_contra other
  obtain ⟨parent, form', up, found', nested⟩ := mem_patternParts_parent tidy mem other
  cases up.symm.trans (tidy.parent?_of_mem isPart)
  cases found.symm.trans found'
  cases form <;> first | (cases plain; done) | simp [Form.nestedParts] at nested

end Table

namespace Step

/-- The step declares temporaries. -/
def isDeclaration : Step → Bool
  | act (.declareTemps _ _) => true
  | _ => false

@[simp] lemma declarations_walks (retain : Bool) (ns : List NodeId) :
    (walks retain ns).filter isDeclaration = [] := by
  simp [walks, isDeclaration]

@[simp] lemma declarations_ofPattern (t : Table) (retain : Bool) (n : NodeId) :
    (ofPattern t retain n).filter isDeclaration = [] := by
  simp [ofPattern, isDeclaration]

lemma declarations_ofFunction (t : Table) (retain : Bool) (n : NodeId) (parts : FunctionParts) :
    (ofFunction t retain n parts).filter isDeclaration = ofBody t n parts.body := by
  have body : (ofBody t n parts.body).filter isDeclaration = ofBody t n parts.body := by
    unfold ofBody
    split <;> rfl
  simp [ofFunction, filter_flatMap, isDeclaration, body]

lemma site?_of_isDeclaration {inner : Bool → Option NodeId → List Action} {step : Step}
    (declares : step.isDeclaration) {action : Action} (mem : action ∈ step.actions inner) :
    action.site? = none := by
  cases step with
  | walk retain n => cases declares
  | act own =>
    cases mem_singleton.mp mem
    cases action <;> first | rfl | cases declares

end Step

/-- The patterns that are lowered, in order. -/
def lowered (actions : List Action) : List NodeId := actions.filterMap Action.site?

section Coverage

variable {t : Table} {opens closes : Nat → Prop} {inner : Bool → Option NodeId → List Action}

lemma lowered_append (first second : List Action) :
    lowered (first ++ second) = lowered first ++ lowered second := filterMap_append

/-- A declaration of temporaries lowers no site. -/
lemma lowered_declarations (steps : List Step) :
    lowered ((steps.filter Step.isDeclaration).flatMap (Step.actions inner)) = [] := by
  refine filterMap_eq_nil_iff.mpr fun action mem => ?_
  obtain ⟨step, isStep, mem⟩ := mem_flatMap.mp mem
  exact Step.site?_of_isDeclaration (mem_filter.mp isStep).2 mem

variable {R : List Action → List NodeId → Prop} (composes : t.Composes R)
  (tidy : t.Tidy opens closes)

include tidy

/-- A pattern is not under one of its expressions. -/
lemma Fits.not_under_expression {n e : NodeId} {declared : Bool}
    (fits : Fits t (.target declared) n) (isPattern : t.isPattern n)
    (mem : e ∈ t.patternExpressions n) : ¬ t.Under e n := by
  intro under
  obtain ⟨plain, under'⟩ := fits.expressions_walkable tidy rfl mem
  obtain rfl : e = n := Nat.le_antisymm (tidy.under_le under') (tidy.under_le under)
  exact Bool.false_ne_true (plain.not_isPattern.symm.trans isPattern)

/-- The sites in and at a pattern that is a site itself. -/
lemma Table.Gathers.lower {n : NodeId} {declared : Bool} (retain : Bool)
    (fits : Fits t (.target declared) n) (site : t.IsSite n) {actions : List Action}
    (inside : t.Covers (lowered actions) (t.patternExpressions n)) :
    t.Covers (lowered (actions ++ [.lower retain n])) [n] := by
  have single : lowered [.lower retain n] = [n] := rfl
  rw [lowered_append, single]
  refine ⟨nodup_append.mpr ⟨inside.nodup, nodup_singleton n, fun m mem k isN same => ?_⟩,
    fun m => ?_⟩
  · cases mem_singleton.mp isN
    subst same
    obtain ⟨⟨e, mem, under⟩, _⟩ := (inside.mem m).mp mem
    exact fits.not_under_expression tidy site.1 mem under
  · rw [mem_append, inside.mem, mem_singleton]
    constructor
    · rintro (⟨⟨e, mem, under⟩, isSite⟩ | rfl)
      · exact ⟨⟨n, by simp, (fits.expressions_walkable tidy rfl mem).2.trans under⟩, isSite⟩
      · exact ⟨⟨m, by simp, .self⟩, site⟩
    · rintro ⟨⟨top, isTop, under⟩, isSite⟩
      cases mem_singleton.mp isTop
      rcases fits.pattern_under_cases tidy rfl under isSite.1 with mem | ⟨e, mem, under⟩
      · exact .inr (isSite.2 n site.1 mem)
      · exact .inl ⟨⟨e, mem, under⟩, isSite⟩

/-- The sites under a node that is walked are those under its parts, which leaves do not matter
to. -/
lemma Table.Walkable.site_above {n m : NodeId} (walkable : t.Walkable n) {tops : List NodeId}
    (within : ∀ m ∈ tops, m ∈ t.children n)
    (rest : ∀ m ∈ t.children n, m ∈ tops ∨ (t.children m = [] ∧ t.isPattern m = false))
    (site : t.IsSite m) : (∃ top ∈ tops, t.Under top m) ↔ ∃ top ∈ [n], t.Under top m := by
  constructor
  · rintro ⟨top, isTop, under⟩
    exact ⟨n, by simp, .of_child tidy (within top isTop) under⟩
  · rintro ⟨top, isTop, under⟩
    cases mem_singleton.mp isTop
    rcases under.cases_part tidy with rfl | ⟨part, isPart, under⟩
    · exact absurd (walkable.not_isPattern.symm.trans site.1) Bool.false_ne_true
    · rcases rest part isPart with isTop | ⟨leaf, noPattern⟩
      · exact ⟨part, isTop, under⟩
      · exact absurd site (no_site_of_leaf tidy leaf noPattern under)

include composes

/-- The steps at a node leave behind what the walks from there do and the patterns at its parts, and
then what its own declaration of temporaries gives. -/
lemma steps_compose {n : NodeId} {node : Node} {retain : Bool} {steps : List Step}
    (isNode : t.get? n = some node) (shape : WalkShape t retain n node.form steps)
    (nothing : ∀ retain, R (inner retain none) [])
    (walks : ∀ retain e, t.Walkable e → (∃ m ∈ node.form.children, t.Under m e) →
      R (inner retain (some e)) [e])
    (pattern : ∀ {m declared}, m ∈ node.form.children → Fits t (.target declared) m →
      t.isPattern m → R ((Step.ofPattern t retain m).flatMap (Step.actions inner)) [m]) :
    ∃ tops actions, steps.flatMap (Step.actions inner) =
        actions ++ (steps.filter Step.isDeclaration).flatMap (Step.actions inner) ∧
      R actions tops ∧ (∀ m ∈ tops, m ∈ node.form.children) ∧
      ∀ m ∈ node.form.children, m ∈ tops ∨ (t.children m = [] ∧ t.isPattern m = false) := by
  have laid := tidy.laid isNode
  have walksAll {ms : List NodeId} (sub : ms.Sublist node.form.children)
      (ok : ∀ m ∈ ms, t.Walkable m) : R ((Step.walks retain ms).flatMap (Step.actions inner))
        ms := by
    rw [Step.walks, flatMap_map]
    exact composes.along tidy (laid.sublist sub) fun m mem =>
      walks retain m (ok m mem) ⟨m, sub.subset mem, .self⟩
  cases shape with
  | plain parts =>
    refine ⟨_, _, ?_, walksAll (.refl _) parts, fun m mem => mem, fun m mem => .inl mem⟩
    simp
  | @site target value _ children isPattern fits written _ =>
    rw [children] at laid walksAll pattern ⊢
    have first : R (inner retain value) value.toList := by
      cases value with
      | none => exact nothing retain
      | some v => exact walks retain v (written v rfl) ⟨v, by simp [children], .self⟩
    refine ⟨value.toList ++ [target], _, ?_,
      composes.append first (pattern (by simp) fits isPattern) ?_,
      fun m mem => ?_, fun m mem => .inl ?_⟩
    · simp [Step.actions, Step.isDeclaration]
    · intro a isA b isB
      cases mem_singleton.mp isB
      refine laid.disjoint tidy (mem_cons_of_mem _ isA) (by simp) fun same => ?_
      exact (nodup_cons.mp laid.nodup).1 (same ▸ isA)
    · simpa [or_comm] using mem
    · simpa [or_comm] using mem
  | @loop isOf head subject body isLoop isPattern fits parts =>
    have children : node.form.children = [head] ++ [subject, body] := by rw [isLoop]; rfl
    rw [children] at laid walksAll pattern ⊢
    refine ⟨[head] ++ [subject, body], _, ?_, composes.beside tidy laid
      (pattern (by simp) fits isPattern) (walksAll (sublist_cons_self head [subject, body]) parts),
      fun m mem => mem, fun m mem => .inl mem⟩
    simp
  | @function parts isFunction name parameters body =>
    have children := Form.children_of_function isFunction
    have sub :
        (parts.parameters.filter t.isPattern ++ [parts.body]).Sublist node.form.children := by
      rw [children, FunctionParts.children, append_assoc]
      exact (filter_sublist.append (.refl _)).trans (sublist_append_right _ _)
    have patterns := (sublist_append_left _ _).trans sub
    have isBody : parts.body ∈ node.form.children := sub.subset (by simp)
    have first : R ((parts.parameters.filter t.isPattern).flatMap fun m =>
        (Step.ofPattern t retain m).flatMap (Step.actions inner))
        (parts.parameters.filter t.isPattern) := by
      refine composes.along tidy (laid.sublist patterns) fun m mem => ?_
      obtain ⟨isParameter, isPattern⟩ := mem_filter.mp mem
      exact pattern (patterns.subset mem) (parameters m isParameter) isPattern
    refine ⟨parts.parameters.filter t.isPattern ++ [parts.body], _, ?_,
      composes.beside tidy (laid.sublist sub) first
        (walks retain parts.body (body.walkable rfl) ⟨_, isBody, .self⟩),
      fun m mem => sub.subset mem, fun m mem => ?_⟩
    · rw [Step.declarations_ofFunction, Step.ofFunction]
      simp [flatMap_assoc, Step.actions]
    · rw [children] at mem
      simp only [FunctionParts.children, mem_append, Option.mem_toList] at mem
      rcases mem with (isName | isParameter) | isBody
      · exact .inr ((name m isName).token_leaf (.inl rfl))
      · by_cases isPattern : t.isPattern m
        · exact .inl (mem_append_left _ (mem_filter.mpr ⟨isParameter, isPattern⟩))
        · exact .inr ((parameters m isParameter).variable_leaf (Bool.eq_false_iff.mpr isPattern))
      · exact .inl (mem_append_right _ isBody)

/-- One level of the walk leaves behind what the walks further in do and the sites at the parts of
the node, and then what its own declaration of temporaries gives. -/
lemma planWithin_compose (depth : Nat) (retain : Bool) {n : NodeId} (walkable : t.Walkable n)
    (nothing : ∀ retain, R (t.planWithin depth retain none) [])
    (walks : ∀ retain e, t.Walkable e → (∃ m ∈ t.children n, t.Under m e) →
      R (t.planWithin depth retain (some e)) [e])
    (site : ∀ {m declared}, Fits t (.target declared) m → t.IsSite m →
      R ((t.patternExpressions m).flatMap fun e => t.planWithin depth true (some e))
        (t.patternExpressions m) →
      R (((t.patternExpressions m).flatMap fun e => t.planWithin depth true (some e)) ++
        [.lower retain m]) [m]) :
    ∃ form tops actions, t.form? n = some form ∧ t.planWithin (depth + 1) retain
      (some n) = actions ++
        ((Step.ofForm t retain n form).filter Step.isDeclaration).flatMap
          (Step.actions (t.planWithin depth)) ∧
      R actions tops ∧ (∀ m ∈ tops, m ∈ t.children n) ∧
      ∀ m ∈ t.children n, m ∈ tops ∨ (t.children m = [] ∧ t.isPattern m = false) := by
  obtain ⟨role, fits⟩ := walkable.fits
  obtain ⟨form, _, found, _⟩ := fits.form
  obtain ⟨node, isNode, rfl⟩ := Table.form?_eq_some.mp found
  have children : t.children n = node.form.children := by simp [Table.children, found]
  rw [children] at walks ⊢
  obtain ⟨tops, actions, same, whole⟩ := steps_compose composes tidy isNode
    (walkable.shape retain found) nothing walks fun {m _} mem fits isPattern => by
      have laid := fits.expressions_laid tidy rfl
        ((tidy.laid isNode).sublist (singleton_sublist.mpr mem))
      have inside := composes.along tidy laid fun e isExpression => by
        obtain ⟨ok, under⟩ := fits.expressions_walkable tidy rfl isExpression
        exact walks true e ok ⟨m, mem, under⟩
      have same : (Step.ofPattern t retain m).flatMap (Step.actions (t.planWithin depth)) =
          ((t.patternExpressions m).flatMap fun e => t.planWithin depth true (some e)) ++
            [.lower retain m] := by
        simp [Step.ofPattern, Step.walks, Step.actions, flatMap_map]
      rw [same]
      exact site fits (Table.isSite_of_parent tidy isPattern (children ▸ mem) found
        (walkable.plain found)) inside
  refine ⟨node.form, tops, actions, found, ?_, whole⟩
  rw [Table.planWithin, found]
  exact same

omit composes in
/-- The walk lowers the sites under a node, and each once. -/
lemma planWithin_covers {depth : Nat} {retain : Bool} {n : NodeId} (walkable : t.Walkable n)
    (shallow : t.Shallow depth n) :
    t.Covers (lowered (t.planWithin depth retain (some n))) [n] := by
  induction depth generalizing retain n with
  | zero => exact absurd (shallow n .self) (by omega)
  | succ depth ih =>
    obtain ⟨form, tops, actions, _, same, covers, within, rest⟩ := planWithin_compose
      (Table.Gathers.composes_filterMap t t.IsSite Action.site?) tidy depth retain walkable
      (fun _ => by cases depth <;> exact .nil)
      (fun _ e ok ⟨_, mem, under⟩ => ih ok ((shallow.child tidy mem).under tidy under))
      fun fits site => .lower tidy retain fits site
    rw [same, lowered_append, lowered_declarations, append_nil]
    exact covers.congr fun m => walkable.site_above tidy within rest

end Coverage

end PatternLowering

import PatternLowering.Proofs.Embedding

/-!
# Sites in the expressions of a pattern

The walk comes to the sites in the computed keys and targets of a pattern before it lowers the
pattern itself, and it has their temporaries kept.
-/

namespace PatternLowering

open List

namespace Table

variable {t : Table} {opens closes : Nat → Prop} {n m e : NodeId}

lemma HasExpression.under (tidy : t.Tidy opens closes) (has : t.HasExpression n e) :
    t.Under n e := by
  induction has with
  | key found => exact .of_child tidy (mem_children_of_form found (by simp [Form.children])) .self
  | target found plain unnamed => exact .self
  | inner found nested _ ih =>
    exact .of_child tidy (mem_children_of_form found (Form.nestedParts_subset _ _ nested)) ih

/-- The expressions of a pattern are smaller than the pattern. -/
lemma HasExpression.lt (tidy : t.Tidy opens closes) (has : t.HasExpression n e)
    (isPattern : t.isPattern n) : e < n := by
  cases has with
  | key found => exact tidy.below (mem_children_of_form found (by simp [Form.children]))
  | target found plain unnamed =>
    rw [isPattern_of_form found] at isPattern
    rename_i form
    cases form <;> first | (cases isPattern; done) | cases plain
  | inner found nested inside =>
    have below := tidy.below (mem_children_of_form found (Form.nestedParts_subset _ _ nested))
    exact (tidy.under_le (inside.under tidy)).trans_lt below

/-- The second action lowers a site in an expression of the pattern that the first one lowers. -/
def Inside (t : Table) (a b : Action) : Prop :=
  ∃ n m e, a.site? = some n ∧ b.site? = some m ∧ t.HasExpression n e ∧ t.Under e m

end Table

/-- The temporaries of the site that is lowered stay in use. -/
def Action.isRetained : Action → Bool
  | lower retain _ => retain
  | _ => false

/-- The sites of these actions lie under `tops`. Those in an expression of a pattern come before the
pattern and are retained. -/
structure Nests (t : Table) (actions : List Action) (tops : List NodeId) : Prop where
  under : ∀ m ∈ lowered actions, ∃ top ∈ tops, t.Under top m
  ordered : actions.Pairwise fun a b => ¬ t.Inside a b
  retained : ∀ a ∈ actions, ∀ b ∈ actions, t.Inside a b → b.isRetained

namespace Nests

variable {t : Table} {opens closes : Nat → Prop} {actions actions' : List Action}
  {tops tops' : List NodeId}

lemma of_none (none : lowered actions = []) (tops : List NodeId) : Nests t actions tops := by
  have noSite (a : Action) (mem : a ∈ actions) (n : NodeId) : a.site? ≠ some n := by
    intro isSite
    have : n ∈ lowered actions := mem_filterMap.mpr ⟨a, mem, isSite⟩
    rw [none] at this
    cases this
  have outside (a b : Action) (mem : a ∈ actions) : ¬ t.Inside a b := by
    rintro ⟨n, _, _, isSite, _⟩
    exact noSite a mem n isSite
  refine ⟨by simp [none], pairwise_of_forall_mem_list fun a mem b _ => outside a b mem, ?_⟩
  exact fun a mem b _ inside => absurd inside (outside a b mem)

lemma mono (nests : Nests t actions tops)
    (within : ∀ top ∈ tops, ∃ top' ∈ tops', t.Under top' top) : Nests t actions tops' := by
  refine ⟨fun m mem => ?_, nests.ordered, nests.retained⟩
  obtain ⟨top, isTop, under⟩ := nests.under m mem
  obtain ⟨top', isTop', above⟩ := within top isTop
  exact ⟨top', isTop', above.trans under⟩

/-- Sites under different nodes have nothing to do with each other. -/
lemma not_inside (tidy : t.Tidy opens closes) (first : Nests t actions tops)
    (second : Nests t actions' tops') (apart : ∀ a ∈ tops, ∀ b ∈ tops', t.Apart a b) {a b : Action}
    (isFirst : a ∈ actions) (isSecond : b ∈ actions') : ¬ t.Inside a b ∧ ¬ t.Inside b a := by
  have distinct {n m : NodeId} (isSite : a.site? = some n) (isSite' : b.site? = some m) :
      ¬ t.Under n m ∧ ¬ t.Under m n := by
    obtain ⟨top, isTop, under⟩ := first.under n (mem_filterMap.mpr ⟨a, isFirst, isSite⟩)
    obtain ⟨top', isTop', under'⟩ := second.under m (mem_filterMap.mpr ⟨b, isSecond, isSite'⟩)
    exact ⟨fun inner => apart top isTop top' isTop' m (under.trans inner) under',
      fun inner => apart top isTop top' isTop' n under (under'.trans inner)⟩
  constructor
  · rintro ⟨n, m, e, isSite, isSite', has, under⟩
    exact (distinct isSite isSite').1 ((has.under tidy).trans under)
  · rintro ⟨m, n, e, isSite', isSite, has, under⟩
    exact (distinct isSite isSite').2 ((has.under tidy).trans under)

lemma append (tidy : t.Tidy opens closes) (first : Nests t actions tops)
    (second : Nests t actions' tops') (apart : ∀ a ∈ tops, ∀ b ∈ tops', t.Apart a b) :
    Nests t (actions ++ actions') (tops ++ tops') := by
  have cross {a b : Action} (isFirst : a ∈ actions) (isSecond : b ∈ actions') :=
    first.not_inside tidy second apart isFirst isSecond
  refine ⟨fun m mem => ?_, pairwise_append.mpr ⟨first.ordered, second.ordered,
    fun a isFirst b isSecond => (cross isFirst isSecond).1⟩, fun a mem b mem' inside => ?_⟩
  · rw [lowered_append] at mem
    rcases mem_append.mp mem with mem | mem
    · obtain ⟨top, isTop, under⟩ := first.under m mem
      exact ⟨top, mem_append_left _ isTop, under⟩
    · obtain ⟨top, isTop, under⟩ := second.under m mem
      exact ⟨top, mem_append_right _ isTop, under⟩
  · rcases mem_append.mp mem with isFirst | isSecond <;>
      rcases mem_append.mp mem' with isFirst' | isSecond'
    · exact first.retained a isFirst b isFirst' inside
    · exact absurd inside (cross isFirst isSecond').1
    · exact absurd inside (cross isFirst' isSecond).2
    · exact second.retained a isSecond b isSecond' inside

lemma composes (tidy : t.Tidy opens closes) : t.Composes (Nests t) :=
  ⟨of_none rfl [], append tidy⟩

/-- A pattern follows the sites in its expressions. -/
lemma lower (tidy : t.Tidy opens closes) {n : NodeId} {retain : Bool} (isPattern : t.isPattern n)
    (nests : Nests t actions (t.patternExpressions n))
    (kept : ∀ a ∈ actions, a.site?.isSome → a.isRetained) :
    Nests t (actions ++ [.lower retain n]) [n] := by
  have below {m : NodeId} {a : Action} (mem : a ∈ actions) (isSite : a.site? = some m) : m < n := by
    obtain ⟨e, isExpression, under⟩ := nests.under m (mem_filterMap.mpr ⟨a, mem, isSite⟩)
    have has := (Table.mem_patternExpressions tidy).mp isExpression
    exact (tidy.under_le under).trans_lt (has.lt tidy isPattern)
  have notAround {a : Action} (mem : a ∈ actions) : ¬ t.Inside a (.lower retain n) := by
    rintro ⟨m, _, e, isSite, isLast, has, under⟩
    cases isLast
    exact Nat.not_le_of_lt (below mem isSite) (tidy.under_le ((has.under tidy).trans under))
  refine ⟨fun m mem => ?_, pairwise_append.mpr ⟨nests.ordered, pairwise_singleton _ _, ?_⟩, ?_⟩
  · rw [lowered_append] at mem
    rcases mem_append.mp mem with mem | mem
    · obtain ⟨e, isExpression, under⟩ := nests.under m mem
      have has := (Table.mem_patternExpressions tidy).mp isExpression
      exact ⟨n, by simp, (has.under tidy).trans under⟩
    · exact ⟨m, mem, .self⟩
  · intro a mem b isLast
    cases mem_singleton.mp isLast
    exact notAround mem
  · intro a mem b mem' inside
    rcases mem_append.mp mem' with mem' | isLast'
    · obtain ⟨_, m, _, _, isSite, _⟩ := inside
      exact kept b mem' (Option.isSome_of_mem isSite)
    · cases mem_singleton.mp isLast'
      rcases mem_append.mp mem with mem | isLast
      · exact absurd inside (notAround mem)
      · cases mem_singleton.mp isLast
        obtain ⟨_, _, e, isSite, isSite', has, under⟩ := inside
        cases isSite
        cases isSite'
        exact absurd (tidy.under_le under) (Nat.not_le_of_lt (has.lt tidy isPattern))

end Nests

namespace Step

variable {t : Table} {n : NodeId} {form : Form} {step : Step}

/-- The flag that a step hands on. -/
def isRetained : Step → Bool
  | walk retain _ => retain
  | act (.lower retain _) => retain
  | act _ => true

lemma walks_retained {ns : List NodeId} (mem : step ∈ walks true ns) : step.isRetained := by
  obtain ⟨_, _, rfl⟩ := mem_map.mp mem
  rfl

lemma ofPattern_retained (mem : step ∈ ofPattern t true n) : step.isRetained := by
  rcases mem_append.mp mem with mem | mem
  · exact walks_retained mem
  · cases mem_singleton.mp mem
    rfl

lemma ofFunction_retained {parts : FunctionParts} (mem : step ∈ ofFunction t true n parts) :
    step.isRetained := by
  rcases mem_append.mp mem with mem | mem
  · obtain ⟨_, _, mem⟩ := mem_flatMap.mp mem
    exact ofPattern_retained mem
  · rcases mem_cons.mp mem with rfl | mem
    · rfl
    · unfold ofBody at mem
      split at mem
      · cases mem_singleton.mp mem
        rfl
      · cases mem

/-- Once temporaries are kept, they are kept all the way down. -/
lemma ofForm_retained (mem : step ∈ ofForm t true n form) : step.isRetained := by
  unfold ofForm at mem
  split at mem
  · split at mem
    · rcases mem_cons.mp mem with rfl | mem
      · rfl
      · exact ofPattern_retained mem
    · exact walks_retained mem
  · split at mem
    · rcases mem_cons.mp mem with rfl | mem
      · rfl
      · exact ofPattern_retained mem
    · exact walks_retained mem
  · rcases mem_append.mp mem with mem | mem
    · split at mem
      · exact ofPattern_retained mem
      · exact walks_retained mem
    · exact walks_retained mem
  · exact ofFunction_retained mem
  · exact ofFunction_retained mem
  · exact walks_retained mem
  · exact walks_retained mem
  · exact walks_retained mem

end Step

section Plans

variable {t : Table} {opens closes : Nat → Prop} {inner : Bool → Option NodeId → List Action}

lemma planWithin_retained {depth : Nat} {n : Option NodeId} {a : Action}
    (mem : a ∈ t.planWithin depth true n) (isSite : a.site?.isSome) : a.isRetained := by
  induction depth generalizing n with
  | zero =>
    cases mem_singleton.mp mem
    cases isSite
  | succ depth ih =>
    cases n with
    | none => cases mem
    | some n =>
      rw [Table.planWithin] at mem
      cases found : t.form? n with
      | none =>
        rw [found] at mem
        cases mem
      | some form =>
        rw [found] at mem
        obtain ⟨step, isStep, mem⟩ := mem_flatMap.mp mem
        have kept := Step.ofForm_retained isStep
        cases step with
        | walk retain m =>
          cases kept
          exact ih mem
        | act action =>
          cases mem_singleton.mp mem
          cases a with
          | lower retain m => exact kept
          | declareTemps m statements => cases isSite
          | tooDeep m => cases isSite

/-- The walk comes to the expressions of a pattern first, and keeps their temporaries. -/
lemma planWithin_nests (tidy : t.Tidy opens closes) (depth : Nat) {retain : Bool} {n : NodeId}
    (walkable : t.Walkable n) : Nests t (t.planWithin depth retain (some n)) [n] := by
  induction depth generalizing retain n with
  | zero => exact .of_none rfl _
  | succ depth ih =>
    obtain ⟨form, tops, actions, _, same, nests, within, _⟩ :=
      planWithin_compose (Nests.composes tidy) tidy depth
      retain walkable (fun _ => .of_none (by cases depth <;> rfl) []) (fun _ _ ok _ => ih ok)
      fun _ site inside => inside.lower tidy site.1 fun a mem => by
        obtain ⟨e, _, mem⟩ := mem_flatMap.mp mem
        exact planWithin_retained mem
    rw [same]
    refine (nests.append tidy (.of_none (lowered_declarations _) []) (by simp)).mono
      fun top isTop => ⟨n, by simp, ?_⟩
    exact .of_child tidy (within top (by simpa using isTop)) .self

lemma Table.Tree.plan_nests {text : Text} {root : NodeId} (tree : t.Tree text root) :
    Nests t (t.plan root) [root] := by
  have nests : Nests t (t.planWithin maxTreeDepth false (some root)) [root] :=
    planWithin_nests tree.tidy maxTreeDepth (tree.fits.walkable rfl)
  refine nests.append tree.tidy (.of_none ?_ []) (by simp)
  split <;> rfl

end Plans

end PatternLowering

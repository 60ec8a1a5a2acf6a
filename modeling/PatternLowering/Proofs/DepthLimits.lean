import PatternLowering.Proofs.Retention

/-!
# Where the walk gives up

The walk descends a fixed number of levels. A node that lies deeper is noted in the log and left
alone with everything under it. The sites that are lowered or reported are the other ones, and so
nothing is passed over in a program of few levels.
-/

namespace PatternLowering

open List

/-- The node at which the walk gives up. -/
def Action.abandoned? : Action → Option NodeId
  | tooDeep n => n
  | _ => none

lemma Action.eq_of_abandoned {action : Action} {n : NodeId} (gaveUp : action.abandoned? = some n) :
    action = .tooDeep (some n) := by
  cases action with
  | tooDeep m => exact congrArg tooDeep gaveUp
  | _ => cases gaveUp

def abandoned (actions : List Action) : List NodeId := actions.filterMap Action.abandoned?

lemma abandoned_append (first second : List Action) :
    abandoned (first ++ second) = abandoned first ++ abandoned second := filterMap_append

namespace Table

/-- A walk over the nodes `tops` lowers the sites under them, except those under a node at which it
gives up. Such a node lies `depth` levels down. -/
structure Sorts (t : Table) (depth : Nat) (actions : List Action) (tops : List NodeId) : Prop where
  above_abandoned : ∀ k ∈ abandoned actions, ∃ top ∈ tops, t.Under top k ∧
    t.level top + depth ≤ t.level k
  above_lowered : ∀ m ∈ lowered actions, ∃ top ∈ tops, t.Under top m
  mem : ∀ m, t.IsSite m → (∃ top ∈ tops, t.Under top m) →
    (m ∈ lowered actions ↔ ¬ ∃ k ∈ abandoned actions, t.Under k m)

namespace Sorts

variable {t : Table} {depth : Nat} {actions actions' : List Action} {tops tops' : List NodeId}

/-- What happens elsewhere does not matter to a site. -/
lemma mem_beside (first : t.Sorts depth actions tops) (second : t.Sorts depth actions' tops')
    (apart : ∀ a ∈ tops, ∀ b ∈ tops', t.Apart a b) {m : NodeId} (site : t.IsSite m)
    (inside : ∃ top ∈ tops, t.Under top m) :
    (m ∈ lowered actions ∨ m ∈ lowered actions') ↔
      ¬ ((∃ k ∈ abandoned actions, t.Under k m) ∨
        ∃ k ∈ abandoned actions', t.Under k m) := by
  obtain ⟨a, isA, under⟩ := id inside
  have notLowered : m ∉ lowered actions' := fun mem => by
    obtain ⟨b, isB, under'⟩ := second.above_lowered m mem
    exact apart a isA b isB m under under'
  have notAbandoned : ¬ ∃ k ∈ abandoned actions', t.Under k m := by
    rintro ⟨k, isK, under'⟩
    obtain ⟨b, isB, under'', _⟩ := second.above_abandoned k isK
    exact apart a isA b isB m under (under''.trans under')
  rw [or_iff_left notLowered, or_iff_left notAbandoned]
  exact first.mem m site inside

lemma composes (t : Table) (depth : Nat) : t.Composes (t.Sorts depth) := by
  refine ⟨⟨by simp [abandoned], by simp [lowered], by simp⟩, ?_⟩
  intro actions actions' tops tops' first second apart
  refine ⟨fun k mem => ?_, fun m mem => ?_, fun m site inside => ?_⟩
  · rw [abandoned_append, mem_append] at mem
    rcases mem with mem | mem
    · obtain ⟨top, isTop, under⟩ := first.above_abandoned k mem
      exact ⟨top, mem_append_left _ isTop, under⟩
    · obtain ⟨top, isTop, under⟩ := second.above_abandoned k mem
      exact ⟨top, mem_append_right _ isTop, under⟩
  · rw [lowered_append, mem_append] at mem
    rcases mem with mem | mem
    · obtain ⟨top, isTop, under⟩ := first.above_lowered m mem
      exact ⟨top, mem_append_left _ isTop, under⟩
    · obtain ⟨top, isTop, under⟩ := second.above_lowered m mem
      exact ⟨top, mem_append_right _ isTop, under⟩
  · simp only [lowered_append, abandoned_append, mem_append, or_and_right, exists_or] at inside ⊢
    rcases inside with inside | inside
    · exact first.mem_beside second apart site inside
    · rw [or_comm, or_comm (a := ∃ k ∈ abandoned actions, t.Under k m)]
      exact second.mem_beside first (fun a isA b isB k under under' =>
        apart b isB a isA k under' under) site inside

end Sorts

end Table

section Walk

variable {t : Table} {opens closes : Nat → Prop} {inner : Bool → Option NodeId → List Action}

/-- The sites in and at a pattern that is a site itself. -/
lemma Table.Sorts.lower (tidy : t.Tidy opens closes) {n : NodeId} {declared : Bool} (retain : Bool)
    (fits : Fits t (.target declared) n) (site : t.IsSite n) {depth : Nat} {actions : List Action}
    (inside : t.Sorts depth actions (t.patternExpressions n)) :
    t.Sorts depth (actions ++ [.lower retain n]) [n] := by
  have walkable {e : NodeId} (mem : e ∈ t.patternExpressions n) :=
    fits.expressions_walkable tidy rfl mem
  have isLowered (m : NodeId) : m ∈ lowered [.lower retain n] ↔ m = n := by
    simp [lowered, Action.site?]
  have noneAbandoned : abandoned [.lower retain n] = [] := rfl
  refine ⟨fun k mem => ?_, fun m mem => ?_, fun m isSite above => ?_⟩
  · rw [abandoned_append, noneAbandoned, append_nil] at mem
    obtain ⟨e, mem, under, deep⟩ := inside.above_abandoned k mem
    have := Table.level_le_of_under tidy (walkable mem).2
    exact ⟨n, by simp, (walkable mem).2.trans under, by omega⟩
  · rw [lowered_append, mem_append, isLowered] at mem
    rcases mem with mem | rfl
    · obtain ⟨e, mem, under⟩ := inside.above_lowered m mem
      exact ⟨n, by simp, (walkable mem).2.trans under⟩
    · exact ⟨m, by simp, .self⟩
  · rw [lowered_append, abandoned_append, noneAbandoned, append_nil, mem_append, isLowered]
    obtain ⟨top, isTop, under⟩ := above
    cases mem_singleton.mp isTop
    rcases fits.pattern_under_cases tidy rfl under isSite.1 with mem | ⟨e, mem, inner⟩
    · cases isSite.2 n site.1 mem
      refine iff_of_true (.inr rfl) ?_
      rintro ⟨k, isK, deep⟩
      obtain ⟨e, mem, above, _⟩ := inside.above_abandoned k isK
      exact fits.not_under_expression tidy site.1 mem (above.trans deep)
    · have other : m ≠ n := by
        rintro rfl
        exact fits.not_under_expression tidy site.1 mem inner
      rw [or_iff_left other]
      exact inside.mem m isSite ⟨e, mem, inner⟩

/-- The walk does not give up at a declaration of temporaries. -/
lemma abandoned_declarations (steps : List Step) :
    abandoned ((steps.filter Step.isDeclaration).flatMap (Step.actions inner)) = [] := by
  refine filterMap_eq_nil_iff.mpr fun action mem => ?_
  obtain ⟨step, isStep, mem⟩ := mem_flatMap.mp mem
  have declares := (mem_filter.mp isStep).2
  cases step with
  | walk retain n => cases declares
  | act own =>
    cases mem_singleton.mp mem
    cases action <;> first | rfl | cases declares

/-- The walk lowers the sites under a node, except those under a node at which it gives up. -/
lemma planWithin_sorts (tidy : t.Tidy opens closes) {depth : Nat} {retain : Bool} {n : NodeId}
    (walkable : t.Walkable n) : t.Sorts depth (t.planWithin depth retain (some n)) [n] := by
  induction depth generalizing retain n with
  | zero =>
    refine ⟨fun k mem => ⟨n, by simp, ?_⟩, fun m mem => ?_, fun m _ above => ?_⟩
    · cases mem_singleton.mp mem
      exact ⟨.self, le_rfl⟩
    · cases mem
    · obtain ⟨top, isTop, under⟩ := above
      cases mem_singleton.mp isTop
      exact iff_of_false (not_mem_nil) fun none => none ⟨n, mem_singleton_self n, under⟩
  | succ depth ih =>
    have nothing (retain : Bool) : t.Sorts depth (t.planWithin depth retain none) [] := by
      cases depth <;> exact ⟨by simp [Table.planWithin, abandoned, Action.abandoned?],
        by simp [Table.planWithin, lowered, Action.site?], by simp⟩
    obtain ⟨form, tops, actions, _, same, sorts, within, rest⟩ :=
      planWithin_compose (Table.Sorts.composes t depth) tidy
      depth retain walkable nothing (fun _ _ ok _ => ih ok)
      fun fits site => .lower tidy retain fits site
    have isLowered : lowered (t.planWithin (depth + 1) retain (some n)) = lowered actions := by
      rw [same, lowered_append, lowered_declarations, append_nil]
    have isAbandoned :
        abandoned (t.planWithin (depth + 1) retain (some n)) = abandoned actions := by
      rw [same, abandoned_append, abandoned_declarations, append_nil]
    refine ⟨fun k mem => ?_, fun m mem => ?_, fun m site above => ?_⟩
    · obtain ⟨top, isTop, under, deep⟩ := sorts.above_abandoned k (isAbandoned ▸ mem)
      have := Table.level_of_child tidy (within top isTop)
      exact ⟨n, by simp, .of_child tidy (within top isTop) under, by omega⟩
    · obtain ⟨top, isTop, under⟩ := sorts.above_lowered m (isLowered ▸ mem)
      exact ⟨n, by simp, .of_child tidy (within top isTop) under⟩
    · rw [isLowered, isAbandoned]
      exact sorts.mem m site ((walkable.site_above tidy within rest site).mpr above)

namespace Table.Tree

variable {text : Text} {root n : NodeId} (tree : t.Tree text root)

include tree

lemma sorts_plan : t.Sorts maxTreeDepth (t.plan root) [root] := by
  have sorts : t.Sorts maxTreeDepth (t.planWithin maxTreeDepth false (some root)) [root] :=
    planWithin_sorts tree.tidy (tree.fits.walkable rfl)
  have same : lowered (t.plan root) = lowered (t.planWithin maxTreeDepth false (some root)) ∧
      abandoned (t.plan root) = abandoned (t.planWithin maxTreeDepth false (some root)) := by
    rw [Table.plan, lowered_append, abandoned_append]
    split <;> simp [lowered, abandoned, Action.site?, Action.abandoned?]
  obtain ⟨isLowered, isAbandoned⟩ := same
  exact ⟨isAbandoned ▸ sorts.above_abandoned, isLowered ▸ sorts.above_lowered,
    isLowered ▸ isAbandoned ▸ sorts.mem⟩

/-- The pass lowers the sites that are not under a node at which it gives up. -/
lemma mem_lowered_plan (site : t.IsSite n) :
    n ∈ lowered (t.plan root) ↔ ¬ ∃ k ∈ abandoned (t.plan root), t.Under k n :=
  tree.sorts_plan.mem n site ⟨root, by simp, tree.under_root (Table.lt_size_of_isPattern site.1)⟩

lemma level_of_abandoned (mem : n ∈ abandoned (t.plan root)) : maxTreeDepth < t.level n := by
  obtain ⟨top, isTop, _, deep⟩ := tree.sorts_plan.above_abandoned n mem
  cases mem_singleton.mp isTop
  have := t.level_pos root
  omega

end Table.Tree

end Walk

namespace Pass

variable {input : PassInput} {p : Pass} {n : NodeId}

/-- The report of a failure to lower the site at `n`. -/
def siteDiagnostic (input : PassInput) (n : NodeId) (failure : Failure) : Diagnostic :=
  failure.diagnostic input.file input.lines input.options.policy
    (range input.table (reportedNode input.table n)).1
      (range input.table (reportedNode input.table n)).2

lemma report_diagnostics (start stop : Nat) (failure : Failure) :
    (p.report input start stop failure).diagnostics = p.diagnostics ++
      [failure.diagnostic input.file input.lines input.options.policy start stop] := by
  unfold report
  dsimp only
  split <;> rfl

lemma failed_diagnostics (failure : Failure) :
    (p.failed input n failure).diagnostics = p.diagnostics ++ [siteDiagnostic input n failure] := by
  unfold failed
  dsimp only
  rw [report_diagnostics]
  split
  · rfl
  · split <;> rfl

/-- Lowering a site reports nothing or why that site stays. -/
lemma lower_diagnostics (input : PassInput) (p : Pass) (n : NodeId) (retain : Bool) :
    (p.lower input retain n).diagnostics = p.diagnostics ∨
    ∃ failure, (p.lower input retain n).diagnostics = p.diagnostics ++
      [siteDiagnostic input n failure] := by
  unfold lower
  dsimp only
  split
  · exact .inr ⟨_, failed_diagnostics _⟩
  · split
    · exact .inr ⟨_, failed_diagnostics _⟩
    · exact .inl rfl

/-- Reports are never taken back. -/
lemma run_diagnostics (input : PassInput) (action : Action) (p : Pass) :
    p.diagnostics <+: (action.run input p).diagnostics := by
  cases action with
  | lower retain n =>
    rcases lower_diagnostics input p n retain with same | ⟨failure, more⟩
    · exact ⟨[], by simp [Action.run_lower, same]⟩
    · exact ⟨_, more.symm⟩
  | declareTemps n statements =>
    rw [Action.run_declareTemps]
    unfold declareTemps
    dsimp only
    split
    · exact prefix_rfl
    · split
      · exact prefix_rfl
      · exact ⟨_, (report_diagnostics _ _ _).symm⟩
  | tooDeep n => exact prefix_rfl

lemma perform_diagnostics (input : PassInput) (actions : List Action) (p : Pass) :
    p.diagnostics <+: (p.perform input actions).diagnostics := by
  induction actions generalizing p with
  | nil => exact prefix_rfl
  | cons action later ih => exact (run_diagnostics input action p).trans (ih _)

/-- Nor is anything taken out of the log. -/
lemma run_log (input : PassInput) (alive : p.scopes.Alive) (action : Action) :
    p.log.toList <+: (action.run input p).log.toList := by
  cases action with
  | lower retain n =>
    have asked : Scopes.Asked _ retain p.scopes p.log _ (p.lower input retain n).log :=
      lower_asked alive retain n
    obtain ⟨events, same, _⟩ := asked
    exact ⟨events, same.symm⟩
  | declareTemps n statements =>
    have quiet : Event.Quiet p.log (p.declareTemps input n statements).log :=
      declareTemps_quiet n statements
    obtain ⟨events, same, _⟩ := quiet
    exact ⟨events, same.symm⟩
  | tooDeep n => exact ⟨[.loweringTooDeep (n.getD noNode)], by simp [Action.run, record]⟩

lemma perform_log (input : PassInput) (alive : p.scopes.Alive) (actions : List Action) :
    p.log.toList <+: (p.perform input actions).log.toList := by
  induction actions generalizing p with
  | nil => exact prefix_rfl
  | cons action later ih =>
    exact (run_log input alive action).trans (ih (run_alive input alive action))

/-- Where the walk gave up is told in the log. -/
lemma log_of_abandoned (input : PassInput) (alive : p.scopes.Alive) {actions : List Action}
    (mem : n ∈ abandoned actions) : .loweringTooDeep n ∈ (p.perform input actions).log.toList := by
  induction actions generalizing p with
  | nil => cases mem
  | cons action later ih =>
    have alive' := run_alive input alive action
    obtain ⟨other, isAction, abandons⟩ := mem_filterMap.mp mem
    rcases mem_cons.mp isAction with rfl | isLater
    · cases Action.eq_of_abandoned abandons
      refine (perform_log input alive' later).subset ?_
      simp [Action.run, record]
    · exact ih alive' (mem_filterMap.mpr ⟨other, isLater, abandons⟩)

end Pass

attribute [local irreducible] Parsed.ofText

namespace Lowering

variable {file source : String} {options : Options} {n : NodeId}

/-- The pass over a text replaces the site at `n`. -/
def Completes (file source : String) (options : Options) (n : NodeId) : Prop :=
  ∃ before retain after, passPlan source = before ++ .lower retain n :: after ∧
    Pass.Replaces (Parsed.ofText source.toList).table n
      ((passStart file source).perform (passInput file source options) before)
      ((passStart file source).perform (passInput file source options) (before ++
        [.lower retain n]))

/-- Why the site at `n` stays is one of the reports. -/
def Reports (file source : String) (options : Options) (n : NodeId) : Prop :=
  ∃ failure, Pass.siteDiagnostic (passInput file source options) n failure ∈
    (lower file source options).diagnostics

/-- The walk over a text gives up at a node above `n`, at `n` at the latest, which lies too deep. -/
def Abandons (file source : String) (options : Options) (n : NodeId) : Prop :=
  ∃ k, .loweringTooDeep k ∈ (lower file source options).log ∧
    (Parsed.ofText source.toList).table.Under k n ∧
    maxTreeDepth < (Parsed.ofText source.toList).table.level k

/-- A site that the pass comes to is replaced or reported. -/
lemma completes_or_reports (clean : (Parsed.ofText source.toList).hasErrors = false)
    (mem : n ∈ lowered (passPlan source)) :
    Completes file source options n ∨ Reports file source options n := by
  obtain ⟨action, isAction, isSite⟩ := mem_filterMap.mp mem
  obtain ⟨retain, rfl⟩ : ∃ retain, action = .lower retain n := by
    cases action with
    | lower retain m => exact ⟨retain, congrArg (Action.lower retain) (Option.some.inj isSite)⟩
    | _ => cases isSite
  obtain ⟨before, after, plan⟩ := append_of_mem isAction
  have handled :
      Pass.Along (passInput file source options) (Pass.Handled (passInput file source options))
        (passPlan source) (passStart file source) := handled_along clean
  rw [plan, Pass.along_append] at handled
  obtain ⟨code, ends, ended⟩ := handled.2.1
  cases code with
  | none =>
    refine .inl ⟨before, retain, after, plan, ?_⟩
    rw [Pass.perform_append]
    exact ended
  | some code =>
    obtain ⟨_, _, d, _, more⟩ := ended
    obtain ⟨reports, _⟩ := lower_eq_perform file options clean
    rcases Pass.lower_diagnostics (passInput file source options)
      ((passStart file source).perform (passInput file source options) before) n
        retain with same | ⟨failure, told⟩
    · simp [same] at more
    · refine .inr ⟨failure, ?_⟩
      rw [reports, plan, Pass.perform_append, Pass.perform_cons]
      refine (Pass.perform_diagnostics _ after _).subset ?_
      rw [Action.run_lower, told]
      exact mem_append_right _ (mem_singleton_self _)

lemma abandons_of_mem (clean : (Parsed.ofText source.toList).hasErrors = false) {k : NodeId}
    (mem : k ∈ abandoned (passPlan source))
    (under : (Parsed.ofText source.toList).table.Under k n) : Abandons file source options n := by
  obtain ⟨_, _, _, log⟩ := lower_eq_perform file options clean
  have sound : (passStart file source).scopes.Sound := Scopes.Reachable.bound.sound.1
  have opened := Binding.openedBy_ofTable (Parsed.ofText source.toList).table
    (Parsed.ofText source.toList).root
  refine ⟨k, ?_, under, (tree_of_clean clean).level_of_abandoned mem⟩
  have told := Pass.log_of_abandoned (passInput file source options)
    ⟨sound, ne_nil_of_mem opened.program⟩ mem
  rw [log]
  exact Array.mem_push_of_mem _ (Array.mem_toList_iff.mp told)

end Lowering

/-- Every site of a text with an output is replaced, or reported, or lies under a node at which the
walk gave up and which is noted in the log. In the last case alone nothing is done about the
site. -/
theorem sites_end_unless_abandoned (file source : String) (options : Options) {output : String}
    (isOutput : (lower file source options).output = some output) {n : NodeId}
    (site : (Parsed.ofText source.toList).table.IsSite n) :
    (n ∈ lowered (Lowering.passPlan source) ∧
      (Lowering.Completes file source options n ∨ Lowering.Reports file source options n)) ∨
    (n ∉ lowered (Lowering.passPlan source) ∧ Lowering.Abandons file source options n) := by
  have clean := Lowering.clean_of_output isOutput
  have sorted := (Lowering.tree_of_clean clean).mem_lowered_plan site
  by_cases mem : n ∈ lowered (Lowering.passPlan source)
  · exact .inl ⟨mem, Lowering.completes_or_reports clean mem⟩
  · obtain ⟨k, isAbandoned, under⟩ := not_not.mp (mt sorted.mpr mem)
    exact .inr ⟨mem, Lowering.abandons_of_mem clean isAbandoned under⟩

theorem site_of_called_assignment_ends :
    (lower "a.js" "([a] = x)();" .default).output = some "(a = x[0], x)();" ∧
    (Parsed.ofText "([a] = x)();".toList).table.IsSite 1 ∧
    ((1 ∈ lowered (Lowering.passPlan "([a] = x)();") ∧
      (Lowering.Completes "a.js" "([a] = x)();" .default 1 ∨
        Lowering.Reports "a.js" "([a] = x)();" .default 1)) ∨
    (1 ∉ lowered (Lowering.passPlan "([a] = x)();") ∧
      Lowering.Abandons "a.js" "([a] = x)();" .default 1)) := by
  obtain ⟨output, isPattern, isAssignment⟩ :
      (lower "a.js" "([a] = x)();" .default).output = some "(a = x[0], x)();" ∧
      (Parsed.ofText "([a] = x)();".toList).table.isPattern 1 ∧
      (Parsed.ofText "([a] = x)();".toList).table.form? 3 =
        some (.assignment 1 .plain 2) := by decide +kernel
  generalize "([a] = x)();" = source at *
  have site : (Parsed.ofText source.toList).table.IsSite 1 :=
    Table.isSite_of_parent (Lowering.tree_of_clean (Lowering.clean_of_output output)).tidy isPattern
      (Table.mem_children_of_form isAssignment (by simp [Form.children])) isAssignment rfl
  exact ⟨output, site, sites_end_unless_abandoned "a.js" source .default output site⟩

end PatternLowering

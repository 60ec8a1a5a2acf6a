import PatternLowering.Proofs.Completion
import PatternLowering.Proofs.Performing

/-!
# What becomes of the sites

Every site ends in one way, which its place in the program and the depth of its pattern decide: it
is reported and left as it is, or it is replaced. Nothing else is ever reported.
-/

namespace PatternLowering

open Table

/-- How a site ends: with the number of a report, or with none if it is replaced. -/
inductive Table.Ends (t : Table) (n : NodeId) : Option Nat → Prop where
  | unsupported (stands : t.InLoopHead n ∨ t.InParameters n) : Ends t n (some 2002)
  | uninitialized (elsewhere : ¬ (t.InLoopHead n ∨ t.InParameters n))
    (missing : t.Uninitialized n) : Ends t n (some 2001)
  | tooDeep (elsewhere : ¬ (t.InLoopHead n ∨ t.InParameters n)) (initialized : ¬ t.Uninitialized n)
    (deep : maxPatternDepth < t.patternDepth n) : Ends t n (some 2003)
  | replaced (elsewhere : ¬ (t.InLoopHead n ∨ t.InParameters n)) (initialized : ¬ t.Uninitialized n)
    (shallow : t.patternDepth n ≤ maxPatternDepth) : Ends t n none

namespace Table

variable {t : Table} {buffer : EditBuffer} {n : NodeId} {retain : Bool} {scopes : Scopes}
  {log : Array Event}

lemma lowerSite_of_refused {failure : Failure} (refused : t.lowerable n = .error failure) :
    t.lowerSite buffer n retain scopes log = (.error failure, scopes, log) := by
  simp [lowerSite, siteParts, refused, bind, Except.bind]

end Table

namespace Pass

variable {input : PassInput} {text : Text} {root n : NodeId} {retain : Bool} {p p' : Pass}

/-- One more report, and nothing else. -/
def Reports (code : Nat) (p p' : Pass) : Prop :=
  p'.buffer = p.buffer ∧ p'.sites = p.sites ∧
    ∃ d, d.code = code ∧ p'.diagnostics = p.diagnostics ++ [d]

/-- The site at `n` has been replaced, and nothing is reported. -/
def Replaces (t : Table) (n : NodeId) (p p' : Pass) : Prop :=
  p'.diagnostics = p.diagnostics ∧ p'.sites = p.sites + 1 ∧
    ∃ place node text, t.lowerable n = .ok place ∧ t.get? place.whole = some node ∧
      p.buffer.replace node.start node.stop text = .ok p'.buffer

lemma failed_reports (failure : Failure) (p : Pass) :
    Reports failure.code p (p.failed input n failure) := by
  unfold failed report
  dsimp only
  split
  · exact ⟨rfl, rfl, _, rfl, rfl⟩
  · split <;> exact ⟨rfl, rfl, _, rfl, rfl⟩

lemma lower_reports {failure : Failure} {scopes : Scopes} {log : Array Event}
    (failed : input.table.lowerSite p.buffer n retain p.scopes p.log =
      (.error failure, scopes, log)) : Reports failure.code p (p.lower input retain n) := by
  unfold lower
  rw [failed]
  exact failed_reports failure _

variable {place : Lowerable}

lemma lower_replaces {site : LoweredSite} {scopes : Scopes} {log : Array Event} {node : Node}
    (lowered : input.table.lowerSite p.buffer n retain p.scopes p.log = (.ok site, scopes, log))
    (ok : input.table.lowerable n = .ok place) (isWhole : input.table.get? place.whole = some node)
    (start : site.start = node.start) (stop : site.stop = node.stop)
    (fits : ∀ text, ∃ b, p.buffer.replace node.start node.stop text = .ok b) :
    Replaces input.table n p (p.lower input retain n) := by
  obtain ⟨b, replaced⟩ := fits site.replacement.toList
  have replaced' := replaced
  rw [← start, ← stop] at replaced'
  unfold lower
  rw [lowered]
  dsimp only
  rw [replaced']
  exact ⟨rfl, rfl, place, node, _, ok, isWhole, replaced⟩

/-- A site has ended. -/
def Ended (t : Table) (n : NodeId) : Option Nat → Pass → Pass → Prop
  | some code, p, p' => Reports code p p'
  | none, p, p' => Replaces t n p p'

lemma siteValue_eq_ok {t : Table} (tree : t.Tree text root) (ok : t.lowerable n = .ok place)
    (buffer : EditBuffer) : ∃ value, t.siteValue buffer place.value = .ok value := by
  obtain ⟨form, found, children⟩ := tree.lowerable_parts ok
  obtain ⟨node, isWhole, rfl⟩ := form?_eq_some.mp found
  obtain ⟨inner, isValue, _⟩ := (tree.tidy.laid isWhole).within
    (show place.value ∈ node.form.children by simp [children])
  unfold Table.siteValue
  split
  · exact ⟨_, rfl⟩
  · rw [nodeText_eq_ok (form?_eq_some.mpr ⟨inner, isValue, rfl⟩)]
    exact ⟨_, rfl⟩

/-- The pattern of a site that may be lowered is unwound, unless it nests too deeply. -/
lemma lowerSite_cases {t : Table} (tree : t.Tree text root) (ok : t.lowerable n = .ok place)
    {whole : Node} (isWhole : t.get? place.whole = some whole) (buffer : EditBuffer) (retain : Bool)
    (scopes : Scopes) (log : Array Event) :
    (t.patternDepth n ≤ maxPatternDepth ∧ ∃ site scopes' log',
      t.lowerSite buffer n retain scopes log = (.ok site, scopes', log') ∧
        site.start = whole.start ∧
        site.stop = whole.stop) ∨
    (maxPatternDepth < t.patternDepth n ∧ ∃ scopes' log',
      t.lowerSite buffer n retain scopes log = (.error (.internal .tooDeep), scopes', log')) := by
  have isPattern := isPattern_of_lowerable ok
  obtain ⟨declared, fits⟩ := tree.fits_target isPattern
  obtain ⟨pattern, read, readAs⟩ := read_eq_ok tree.tidy fits isPattern buffer
  obtain ⟨value, isValue⟩ := siteValue_eq_ok tree ok buffer
  rw [Table.lowerSite, siteParts_eq_ok.mpr ⟨ok, isWhole, read, isValue, rfl⟩, ← readAs.levels]
  dsimp only
  rcases Nat.lt_or_ge maxPatternDepth pattern.levels with deep | shallow
  · obtain ⟨w, gaveUp⟩ := Unwind.site_givesUp _ value deep _
    rw [gaveUp]
    exact .inr ⟨deep, _, _, rfl⟩
  · obtain ⟨bindings, w, unwound⟩ := Unwind.site_completes _ value shallow _
    rw [unwound]
    exact .inl ⟨shallow, _, _, _, rfl, rfl, rfl⟩

/-- The place of a site and the depth of its pattern decide how it ends. -/
lemma lower_ends (tree : input.table.Tree text root) (site : input.table.IsSite n)
    (prepared : Prepared input.table text (.lower retain n) p) :
    ∃ code, input.table.Ends n code ∧ Ended input.table n code p (p.lower input retain n) := by
  cases tree.verdict site with
  | unsupported place stands refused =>
    exact ⟨_, .unsupported stands, lower_reports (lowerSite_of_refused refused)⟩
  | uninitialized elsewhere missing refused =>
    exact ⟨_, .uninitialized elsewhere missing, lower_reports (lowerSite_of_refused refused)⟩
  | lowerable place elsewhere initialized ok =>
    obtain ⟨form, found, _⟩ := tree.lowerable_parts ok
    obtain ⟨node, isWhole, _⟩ := form?_eq_some.mp found
    rcases lowerSite_cases tree ok isWhole p.buffer retain p.scopes p.log with
      ⟨shallow, site, scopes, log, lowered, start, stop⟩ | ⟨deep, scopes, log, failed⟩
    · exact ⟨_, .replaced elsewhere initialized shallow,
        lower_replaces lowered ok isWhole start stop
        fun replacement => ⟨_, prepared.replace tree ok isWhole replacement⟩⟩
    · exact ⟨_, .tooDeep elsewhere initialized deep, lower_reports failed⟩

/-- What an action does: a site ends, and no other action reports anything or replaces a site. -/
def Handled (input : PassInput) (action : Action) (p : Pass) : Prop :=
  match action with
  | .lower retain n =>
    ∃ code, input.table.Ends n code ∧ Ended input.table n code p (p.lower input retain n)
  | action =>
    (action.run input p).diagnostics = p.diagnostics ∧ (action.run input p).sites = p.sites

lemma handled_of_prepared (tree : input.table.Tree text root) {action : Action}
    (isSite : ∀ n ∈ action.site?, input.table.IsSite n)
    (prepared : Prepared input.table text action p) : Handled input action p := by
  cases action with
  | lower retain n => exact lower_ends tree (isSite n rfl) prepared
  | declareTemps n statements =>
    obtain ⟨b, inserted⟩ := prepared.2 (p.scopes.declaredTemps (p.scopes.closest input.table n))
    unfold Handled
    dsimp only
    rw [Action.run_declareTemps, declareTemps]
    split
    · exact ⟨rfl, rfl⟩
    · dsimp only
      rw [inserted]
      exact ⟨rfl, rfl⟩
  | tooDeep n => exact ⟨rfl, rfl⟩

lemma Along.imp {E E' : Action → Pass → Prop} {actions : List Action}
    (along : Along input E actions p) (weaker : ∀ action ∈ actions, ∀ p, E action p → E' action p) :
    Along input E' actions p := by
  induction actions generalizing p with
  | nil => trivial
  | cons action later ih =>
    exact ⟨weaker action (by simp) p along.1,
      ih along.2 fun action mem => weaker action (by simp [mem])⟩

/-- The reports of a run are those of its sites, in order, and as many sites are replaced as end
without one. -/
lemma reports_of_handled {actions : List Action} (along : Along input (Handled input) actions p) :
    ∃ codes, List.Forall₂ input.table.Ends (lowered actions) codes ∧
      (p.perform input actions).diagnostics.map (·.code) =
        p.diagnostics.map (·.code) ++ codes.filterMap id ∧
      (p.perform input actions).sites = p.sites + codes.count none := by
  induction actions generalizing p with
  | nil => exact ⟨[], .nil, by simp, rfl⟩
  | cons action later ih =>
    obtain ⟨handled, along⟩ := along
    obtain ⟨codes, ends, reports, sites⟩ := ih along
    rw [perform_cons]
    cases action with
    | lower retain n =>
      obtain ⟨code, ending, ended⟩ := handled
      rw [reports, sites, Action.run_lower]
      refine ⟨code :: codes, .cons ending ends, ?_⟩
      cases code with
      | none =>
        obtain ⟨same, more, _⟩ := ended
        refine ⟨by simp [same], ?_⟩
        rw [more, List.count_cons_self]
        omega
      | some code =>
        obtain ⟨_, same, d, isCode, more⟩ := ended
        exact ⟨by simp [more, isCode], by simp [same]⟩
    | declareTemps n statements =>
      exact ⟨codes, ends, reports.trans (by rw [handled.1]), sites.trans (by rw [handled.2])⟩
    | tooDeep n =>
      exact ⟨codes, ends, reports.trans (by rw [handled.1]), sites.trans (by rw [handled.2])⟩

end Pass

/-- A tree of few levels is shallow from its root on. -/
lemma Table.Tree.shallow {t : Table} {text : Text} {root : NodeId} (tree : t.Tree text root)
    {levels : Nat} (flat : ∀ n < t.size, t.level n ≤ levels) : t.Shallow levels root := by
  intro m under
  have known : m < t.size := by
    rw [tree.last]
    exact Nat.lt_succ_of_le (tree.tidy.under_le under)
  have above := t.level_pos root
  have := flat m known
  omega

-- The sites of a text are known from its tree; how the text is parsed does not matter for them.
attribute [local irreducible] Parsed.ofText

namespace Lowering

variable {file source : String} {options : Options}

lemma tree_of_clean (clean : (Parsed.ofText source.toList).hasErrors = false) :
    (Parsed.ofText source.toList).table.Tree source.toList (Parsed.ofText source.toList).root := by
  refine Parsed.tree ?_
  simpa [Parsed.hasErrors] using clean

/-- The pass lowers each site once if none lies too deep. -/
lemma passPlan_covers (clean : (Parsed.ofText source.toList).hasErrors = false)
    (shallow : ∀ n < (Parsed.ofText source.toList).table.size,
      (Parsed.ofText source.toList).table.level n ≤ maxTreeDepth) :
    (lowered (passPlan source)).Nodup ∧
      ∀ n, n ∈ lowered (passPlan source) ↔ (Parsed.ofText source.toList).table.IsSite n := by
  have tree := tree_of_clean clean
  unfold passPlan
  generalize (Parsed.ofText source.toList).table = t at *
  generalize (Parsed.ofText source.toList).root = root at *
  have covers : t.Covers (lowered (t.planWithin maxTreeDepth false (some root))) [root] :=
    planWithin_covers tree.tidy (tree.fits.walkable rfl) (tree.shallow shallow)
  have same : lowered (t.plan root) = lowered (t.planWithin maxTreeDepth false (some root)) := by
    rw [Table.plan, lowered_append]
    split <;> simp [lowered, Action.site?]
  rw [same]
  refine ⟨covers.nodup, fun n => (covers.mem n).trans ⟨And.right, fun site => ?_⟩⟩
  exact ⟨⟨root, by simp, tree.under_root (lt_size_of_isPattern site.1)⟩, site⟩

/-- Every action of the pass over a text is prepared by those before it. -/
lemma prepared_along (clean : (Parsed.ofText source.toList).hasErrors = false) :
    Pass.Along (passInput file source options)
      (Pass.Prepared (Parsed.ofText source.toList).table source.toList) (passPlan source)
      (passStart file source) := by
  exact Pass.plan_along (tree_of_clean clean) rfl rfl

end Lowering

end PatternLowering

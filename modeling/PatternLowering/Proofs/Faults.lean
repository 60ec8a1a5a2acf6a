import PatternLowering.Proofs.Sites

/-!
# Failures that do not happen

The pass only lowers patterns that are sites, however deep the program nests. So the one fault of
its own making is a pattern that nests too deeply: every other one would need a table that no text
parses to, or edits that cut into each other.
-/

namespace PatternLowering

section Sound

variable {t : Table} {opens closes : Nat → Prop}

/-- The walk lowers sites only. -/
lemma planWithin_sites (tidy : t.Tidy opens closes) (depth : Nat) {retain : Bool} {n : NodeId}
    (walkable : t.Walkable n) :
    ∀ m ∈ lowered (t.planWithin depth retain (some n)), t.IsSite m := by
  induction depth generalizing retain n with
  | zero => simp [Table.planWithin, lowered, Action.site?]
  | succ depth ih =>
    have composes :
        t.Composes fun (actions : List Action) (_ : List NodeId) => ∀ m ∈ lowered actions,
          t.IsSite m := by
      refine ⟨by simp [lowered], fun first second _ => ?_⟩
      rw [lowered_append]
      exact List.forall_mem_append.mpr ⟨first, second⟩
    obtain ⟨form, tops, actions, _, same, sites, _⟩ :=
      planWithin_compose composes tidy depth retain walkable
      (fun _ => by cases depth <;> simp [Table.planWithin, lowered, Action.site?])
        (fun _ _ ok _ => ih ok)
      fun _ site inside => by
        rw [lowered_append]
        exact List.forall_mem_append.mpr ⟨inside, by simpa [lowered, Action.site?] using site⟩
    rwa [same, lowered_append, lowered_declarations, List.append_nil]

/-- So does the whole pass. -/
lemma Table.Tree.plan_sites {text : Text} {root : NodeId} (tree : t.Tree text root) :
    ∀ m ∈ lowered (t.plan root), t.IsSite m := by
  intro m mem
  rw [Table.plan, lowered_append, List.mem_append] at mem
  rcases mem with mem | mem
  · exact planWithin_sites tree.tidy maxTreeDepth (tree.fits.walkable rfl) m mem
  · split at mem <;> simp [lowered, Action.site?] at mem

end Sound

namespace Pass

/-- An action that does not fail by a fault of the pass: a site is unwound unless its patterns nest
too deeply, and then its replacement can be made; so can an insertion. -/
def Faultless (input : PassInput) (action : Action) (p : Pass) : Prop :=
  match action with
  | .lower retain n =>
    match (input.table.lowerSite p.buffer n retain p.scopes p.log).1 with
    | .ok site => ∃ b, p.buffer.replace site.start site.stop site.replacement.toList = .ok b
    | .error failure => failure.isInternal →
        failure = .internal .tooDeep ∧ maxPatternDepth < input.table.patternDepth n
  | .declareTemps n statements => ∃ b, TempDeclaration.insert input.table p.buffer statements
      (p.scopes.declaredTemps (p.scopes.closest input.table n)) = .ok b
  | .tooDeep _ => True

variable {input : PassInput} {text : Text} {root n : NodeId} {retain : Bool} {p : Pass}

lemma faultless_of_refused {failure : Failure} (refused : input.table.lowerable n = .error failure)
    (expected : failure.isInternal = false) : Faultless input (.lower retain n) p := by
  simp only [Faultless, Table.lowerSite_of_refused refused, expected]
  exact fun impossible => absurd impossible (by simp)

lemma faultless_of_lowerable (tree : input.table.Tree text root) {place : Lowerable}
    (ok : input.table.lowerable n = .ok place)
    (prepared : Prepared input.table text (.lower retain n) p) :
    Faultless input (.lower retain n) p := by
  obtain ⟨form, found, _⟩ := tree.lowerable_parts ok
  obtain ⟨node, isWhole, _⟩ := Table.form?_eq_some.mp found
  unfold Faultless
  dsimp only
  rcases lowerSite_cases tree ok isWhole p.buffer retain p.scopes p.log with
    ⟨_, site, scopes, log, lowered, start, stop⟩ | ⟨deep, scopes, log, failed⟩
  · simp only [lowered, start, stop]
    exact ⟨_, prepared.replace tree ok isWhole _⟩
  · rw [failed]
    exact fun _ => ⟨rfl, deep⟩

/-- What is prepared does not fail. -/
lemma faultless_of_prepared (tree : input.table.Tree text root) {action : Action}
    (isSite : ∀ n ∈ action.site?, input.table.IsSite n)
    (prepared : Prepared input.table text action p) : Faultless input action p := by
  cases action with
  | lower retain n =>
    cases tree.verdict (isSite n rfl) with
    | unsupported place _ refused => exact faultless_of_refused refused rfl
    | uninitialized _ _ refused => exact faultless_of_refused refused rfl
    | lowerable place _ _ ok => exact faultless_of_lowerable tree ok prepared
  | declareTemps n statements => exact prepared.2 _
  | tooDeep n => trivial

end Pass

attribute [local irreducible] Parsed.ofText

end PatternLowering

import PatternLowering.Proofs.Planning
import PatternLowering.Proofs.Unwinding

/-!
# What the pass does to the scopes

Unwinding touches the scopes only by asking for temporaries, by claiming names and by giving
temporaries back, and all of it in one scope. So what these three keep is kept by every site, also
by one that fails, and by the whole pass.
-/

namespace EStateM

variable {ε σ α β : Type}

/-- The state that a step leaves, whether it failed or not. -/
def Result.state : Result ε σ α → σ
  | .ok _ s => s
  | .error _ s => s

/-- The step keeps a property of the state. -/
def Preserves (P : σ → Prop) (x : EStateM ε σ α) : Prop := ∀ s, P s → P (x s).state

namespace Preserves

variable {P : σ → Prop}

lemma pure (a : α) : Preserves P (pure a : EStateM ε σ α) := fun _ kept => kept

lemma throw (e : ε) : Preserves P (throw e : EStateM ε σ α) := fun _ kept => kept

lemma bind {x : EStateM ε σ α} {f : α → EStateM ε σ β} (first : Preserves P x)
    (later : ∀ a, Preserves P (f a)) : Preserves P (x >>= f) := by
  intro s kept
  have after := first s kept
  cases ran : x s with
  | ok a s' =>
    rw [ran] at after
    rw [bind_of_ok ran]
    exact later a s' after
  | error e s' =>
    rw [ran] at after
    rw [bind_of_error ran]
    exact after

end Preserves

end EStateM

namespace PatternLowering

/-- The property is kept by whatever is done to the temporaries of one scope. -/
structure Scopes.Stable (id : ScopeId) (P : Scopes → Prop) : Prop where
  acquire : ∀ {s}, P s → P (s.acquire id).2
  claim : ∀ {s}, P s → P (s.claim id).2
  release : ∀ {s} (name : String), P s → P (s.release id name).2

namespace Unwind

open EStateM

variable {setting : Setting} {P : Scopes → Prop}

/-- The bench with scopes that have the property. -/
def Keeping (P : Scopes → Prop) (w : Workbench) : Prop := P w.scopes

lemma ofExcept_preserves {α : Type} (e : Except Fault α) :
    Preserves (Keeping P) (ofExcept e) := by
  cases e with
  | ok a => exact .pure a
  | error fault => exact .throw fault

lemma Resolved.keeping (stable : Scopes.Stable setting.scope P) {pattern : Pattern} {value : Value}
    {consumers : Nat} {w w' : Workbench} {reads : Reads}
    (resolved : Resolved setting pattern value consumers w reads w') (kept : Keeping P w) :
    Keeping P w' := by
  cases resolved with
  | direct => exact kept
  | inline => exact kept
  | ownName => exact kept
  | temporary => exact stable.acquire kept

lemma release_keeping (stable : Scopes.Stable setting.scope P) (reads : Reads) {w : Workbench}
    (kept : Keeping P w) : Keeping P (release setting reads w) := by
  cases reads with
  | repeatable value => exact kept
  | once value => exact kept
  | assigned first name holder =>
    cases holder with
    | ownName => exact kept
    | temporary =>
      unfold Keeping
      rw [release_temporary_scopes]
      split
      · exact kept
      · exact stable.release name kept

/-- A level that is neither too deep nor empty chooses a reference, unwinds the parts and gives the
reference back, whether the parts failed or not. -/
lemma level_state {pattern : Pattern} {value : Value} {isTop : Bool} {depth : Nat}
    {inside : Reads → Unwind (List FlatBinding × Reads)} {w w' : Workbench} {reads : Reads}
    (shallow : ¬ maxPatternDepth ≤ depth) (nonempty : pattern.count ≠ 0)
    (ran : resolve setting pattern value (consumers setting pattern isTop) w = .ok reads w') :
    (level setting pattern value isTop depth inside w).state =
      release setting reads (inside reads (logged w' (.unwinding depth
        (consumers setting pattern isTop) reads.reference))).state := by
  have recorded : record (.unwinding depth (consumers setting pattern isTop) reads.reference) w' =
      .ok () (logged w' (.unwinding depth (consumers setting pattern isTop) reads.reference)) :=
    record_eq_ok.mpr rfl
  unfold consumers at ran recorded
  unfold level
  rw [if_neg shallow, if_neg nonempty]
  refine (congrArg Result.state (bind_of_ok ran)).trans ?_
  refine (congrArg Result.state (bind_of_ok recorded)).trans ?_
  unfold consumers
  generalize logged w' _ = v
  cases inner : inside reads v with
  | ok result v' =>
    obtain ⟨bindings, left⟩ := result
    have closed : thenAlways (inside reads) (release setting reads) v =
        .ok (bindings, left) (release setting reads v') := thenAlways_eq_ok.mpr ⟨v', inner, rfl⟩
    refine (congrArg Result.state (bind_of_ok closed)).trans ?_
    dsimp only
    cases left.check <;> rfl
  | error fault v' =>
    have closed : thenAlways (inside reads) (release setting reads) v =
        .error fault (release setting reads v') := by
      simp [thenAlways, inner]
    exact congrArg Result.state (bind_of_error closed)

lemma level_preserves (stable : Scopes.Stable setting.scope P) (pattern : Pattern) (value : Value)
    (isTop : Bool) (depth : Nat) {inside : Reads → Unwind (List FlatBinding × Reads)}
    (parts : ∀ reads, Preserves (Keeping P) (inside reads)) :
    Preserves (Keeping P) (level setting pattern value isTop depth inside) := by
  intro w kept
  by_cases deep : maxPatternDepth ≤ depth
  · unfold level
    rw [if_pos deep]
    exact kept
  · by_cases empty : pattern.count = 0
    · unfold level
      rw [if_neg deep, if_pos empty]
      change Keeping P (emptyLevel setting value isTop w).state
      rw [emptyLevel_eq]
      split
      · exact stable.claim kept
      · exact kept
    · obtain ⟨reads, w', ran, resolved⟩ := resolve_resolved setting pattern value
        (consumers setting pattern isTop) w
      rw [level_state deep empty ran]
      exact release_keeping stable reads (parts reads _ (resolved.keeping stable kept))

lemma parts_preserves (stable : Scopes.Stable setting.scope P) (pattern : Pattern) :
    ∀ depth trailing reads, Preserves (Keeping P) (parts setting pattern depth trailing reads) := by
  induction pattern with
  | done =>
    intro depth trailing reads
    rw [parts]
    split
    · exact .bind (ofExcept_preserves _) fun _ => .pure _
    · exact .pure _
  | leaf accessor target later ih =>
    intro depth trailing reads
    rw [parts]
    exact .bind (ofExcept_preserves _) fun _ => .bind (ih _ _ _) fun _ => .pure _
  | nested accessor inner later ihInner ih =>
    intro depth trailing reads
    rw [parts]
    exact .bind (ofExcept_preserves _) fun _ =>
      .bind (level_preserves stable inner _ false _ (ihInner _ _)) fun _ =>
        .bind (ih _ _ _) fun _ => .pure _

lemma site_preserves (stable : Scopes.Stable setting.scope P) (pattern : Pattern) (value : Value) :
    Preserves (Keeping P) (site setting pattern value) :=
  level_preserves stable pattern value true 0 (parts_preserves stable pattern _ _)

end Unwind

lemma Table.lowerSite_preserves {t : Table} {buffer : EditBuffer} {n : NodeId} {retain : Bool}
    {scopes : Scopes} {log : Array Event} {P : Scopes → Prop}
    (stable : Scopes.Stable (scopes.closest t n) P) (kept : P scopes) :
    P (t.lowerSite buffer n retain scopes log).2.1 := by
  unfold lowerSite
  cases found : t.siteParts buffer scopes n retain with
  | error failure => exact kept
  | ok parts =>
    obtain ⟨site, whole, setting, pattern, value⟩ := parts
    obtain ⟨_, _, _, _, same⟩ := siteParts_eq_ok.mp found
    have stable : Scopes.Stable setting.scope P := same ▸ stable
    have after := Unwind.site_preserves stable pattern value ⟨scopes, [], 0, log⟩ kept
    dsimp only
    cases ran : Unwind.site setting pattern value ⟨scopes, [], 0, log⟩ with
    | ok bindings w =>
      rw [ran] at after
      exact after
    | error fault w =>
      rw [ran] at after
      exact after

namespace Pass

variable {input : PassInput} {p : Pass} {P : Scopes → Prop}

lemma report_scopes (start stop : Nat) (failure : Failure) :
    (p.report input start stop failure).scopes = p.scopes := by
  unfold report
  dsimp only
  split <;> rfl

lemma failed_scopes (n : NodeId) (failure : Failure) :
    (p.failed input n failure).scopes = p.scopes := by
  unfold failed
  dsimp only
  rw [report_scopes]
  split
  · rfl
  · split <;> rfl

lemma lower_scopes (retain : Bool) (n : NodeId) : (p.lower input retain n).scopes =
    (input.table.lowerSite p.buffer n retain p.scopes p.log).2.1 := by
  unfold lower
  dsimp only
  split
  · exact failed_scopes n _
  · split
    · exact failed_scopes n _
    · rfl

lemma declareTemps_scopes (n : NodeId) (statements : List NodeId) :
    (p.declareTemps input n statements).scopes = p.scopes := by
  unfold declareTemps
  split
  · rfl
  · dsimp only
    split
    · rfl
    · exact report_scopes _ _ _

/-- An action that lowers no site leaves the scopes as they are. -/
lemma run_scopes {action : Action} (other : action.site? = none) :
    (action.run input p).scopes = p.scopes := by
  cases action with
  | lower retain n => cases other
  | declareTemps n statements => exact declareTemps_scopes n statements
  | tooDeep n => rfl

/-- What the sites of a run keep is kept by the run. -/
lemma perform_scopes {actions : List Action}
    (stable : ∀ n ∈ actions.filterMap Action.site?, ∀ s, P s →
      Scopes.Stable (s.closest input.table n) P) (kept : P p.scopes) :
    P (p.perform input actions).scopes := by
  induction actions generalizing p with
  | nil => exact kept
  | cons action later ih =>
    rw [perform_cons]
    cases isSite : action.site? with
    | none =>
      refine ih (fun n mem => stable n ?_) ?_
      · simpa [isSite] using mem
      · rwa [run_scopes isSite]
    | some n =>
      refine ih (fun n mem => stable n ?_) ?_
      · simpa [isSite] using .inr (by simpa using mem)
      · cases action with
        | lower retain m =>
          cases isSite
          rw [Action.run_lower, lower_scopes]
          exact Table.lowerSite_preserves (stable n (by simp [Action.site?]) _ kept) kept
        | declareTemps n statements => cases isSite
        | tooDeep n => cases isSite

end Pass

end PatternLowering

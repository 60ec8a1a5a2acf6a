import PatternLowering.Proofs.Temporaries

/-!
# Whole histories of temporaries

Names are acquired, claimed and given back in any order. What was handed out and what is in use is
read off the calls and their answers alone, and every scope answers so that no name is confused with
another one: not with a spelling of the file, not with a name in use, not with a claimed one. A
scope declares as many names as were in use at once, and no more.
-/

namespace PatternLowering

open List Scopes

inductive TempCall where
  | acquire
  | claim
  | release (name : String)

/-- A call together with the name that was the answer. -/
inductive TempEvent where
  | acquired (name : String)
  | claimed (name : String)
  | released (name : String)

namespace TempEvent

/-- The name that was handed out. -/
def returned? : TempEvent → Option String
  | acquired name | claimed name => some name
  | released _ => none

def claimed? : TempEvent → Option String
  | claimed name => some name
  | acquired _ | released _ => none

/-- The names in use after one more event. -/
def holding (held : List String) : TempEvent → List String
  | acquired name => held ++ [name]
  | claimed _ => held
  | released name => held.erase name

end TempEvent

/-- What happened to one registry, oldest first. -/
abbrev TempHistory := List TempEvent

namespace TempHistory

def returned (h : TempHistory) : List String := h.filterMap TempEvent.returned?

def claimed (h : TempHistory) : List String := h.filterMap TempEvent.claimed?

/-- The names acquired and not since given back. -/
def held (h : TempHistory) : List String := h.foldl TempEvent.holding []

variable {h before : TempHistory} {e : TempEvent}

lemma held_concat : held (h ++ [e]) = e.holding (held h) := by simp [held]

lemma returned_concat : returned (h ++ [e]) = returned h ++ e.returned?.toList := by
  cases e <;> simp [returned, TempEvent.returned?]

lemma claimed_concat : claimed (h ++ [e]) = claimed h ++ e.claimed?.toList := by
  cases e <;> simp [claimed, TempEvent.claimed?]

/-- The numbers of names that were in use at once. -/
def counts (h : TempHistory) : Set Nat :=
  {count | ∃ before, before <+: h ∧ (held before).length = count}

lemma counts_concat : counts (h ++ [e]) = insert (held (h ++ [e])).length (counts h) := by
  ext count
  simp only [counts, prefix_concat_iff, Set.mem_ofPred_eq, Set.mem_insert_iff]
  constructor
  · rintro ⟨before, rfl | earlier, rfl⟩
    · exact .inl rfl
    · exact .inr ⟨before, earlier, rfl⟩
  · rintro (rfl | ⟨before, earlier, rfl⟩)
    · exact ⟨_, .inl rfl, rfl⟩
    · exact ⟨before, .inr earlier, rfl⟩

/-- The greatest number stays if no more names are in use than that. -/
lemma greatest_concat {most : Nat} (peak : IsGreatest h.counts most)
    (few : (held (h ++ [e])).length ≤ most) : IsGreatest (counts (h ++ [e])) most := by
  rw [counts_concat]
  exact ⟨.inr peak.1, Set.forall_mem_insert.mpr ⟨few, peak.2⟩⟩

lemma greatest_succ {most : Nat} (peak : IsGreatest h.counts most)
    (more : (held (h ++ [e])).length = most + 1) : IsGreatest (counts (h ++ [e])) (most + 1) := by
  rw [counts_concat, more]
  refine ⟨.inl rfl, Set.forall_mem_insert.mpr ⟨Nat.le_refl _, fun count isCount => ?_⟩⟩
  exact (peak.2 isCount).trans (Nat.le_succ most)

/-- What may happen after `before`: the name handed out is neither spelled in the file nor claimed,
and if it was acquired it is not in use. -/
structure Admits (reserved : List String) (before : TempHistory) (e : TempEvent) : Prop where
  unreserved : ∀ name, e.returned? = some name → name ∉ reserved
  unclaimed : ∀ name, e.returned? = some name → name ∉ before.claimed
  unheld : ∀ name, e = .acquired name → name ∉ before.held

/-- Everything that happened was admitted by what had happened before. -/
def Orderly (reserved : List String) (h : TempHistory) : Prop :=
  ∀ before e, before ++ [e] <+: h → Admits reserved before e

namespace Orderly

variable {reserved : List String}

lemma nil : Orderly reserved [] := by
  intro before e early
  simpa using prefix_nil.mp early

lemma concat (orderly : Orderly reserved h) (admits : Admits reserved h e) :
    Orderly reserved (h ++ [e]) := by
  intro before e' early
  rcases prefix_concat_iff.mp early with same | early
  · obtain ⟨rfl, rfl⟩ := append_singleton_inj.mp same
    exact admits
  · exact orderly before e' early

lemma admits (orderly : Orderly reserved (h ++ [e])) : Admits reserved h e :=
  orderly h e prefix_rfl

lemma earlier (orderly : Orderly reserved (h ++ [e])) : Orderly reserved h :=
  fun before e' early => orderly before e' (early.trans (prefix_append h [e]))

lemma unreserved (orderly : Orderly reserved h) : ∀ name ∈ h.returned, name ∉ reserved := by
  induction h using List.reverseRecOn with
  | nil => simp [returned]
  | append_singleton h e ih =>
    intro name mem
    rw [returned_concat, mem_append, Option.mem_toList] at mem
    rcases mem with before | last
    · exact ih orderly.earlier name before
    · exact orderly.admits.unreserved name last

lemma claimed_nodup (orderly : Orderly reserved h) : h.claimed.Nodup := by
  induction h using List.reverseRecOn with
  | nil => exact nodup_nil
  | append_singleton h e ih =>
    have distinct := ih orderly.earlier
    cases e with
    | acquired name => simpa [claimed_concat, TempEvent.claimed?] using distinct
    | released name => simpa [claimed_concat, TempEvent.claimed?] using distinct
    | claimed name =>
      have new : name ∉ claimed h := orderly.admits.unclaimed name rfl
      rw [claimed_concat, TempEvent.claimed?, Option.toList_some, ← concat_eq_append]
      exact distinct.concat new

/-- A claimed name does not come back. -/
lemma claimed_once (orderly : Orderly reserved h) {after : TempHistory} {name : String}
    (isClaim : h = before ++ .claimed name :: after) : name ∉ after.returned := by
  intro again
  obtain ⟨e, mem, given⟩ := mem_filterMap.mp again
  obtain ⟨between, later, rfl⟩ := append_of_mem mem
  have admits := orderly (before ++ .claimed name :: between) e ⟨later, by simp [isClaim]⟩
  refine admits.unclaimed name given (mem_filterMap.mpr ⟨.claimed name, by simp, rfl⟩)

end Orderly

end TempHistory

namespace TempRegistry

variable {reserved : List String} {r : TempRegistry} {h : TempHistory}

/-! ### One registry -/

def answer (reserved : List String) (r : TempRegistry) : TempCall → TempEvent × TempRegistry
  | .acquire => (.acquired (r.acquire reserved).1, (r.acquire reserved).2)
  | .claim => (.claimed (r.claim reserved).1, (r.claim reserved).2)
  | .release name => (.released name, (r.release name).2)

lemma takeFree?_eq_none {slots : List TempSlot} (full : takeFree? slots = none) :
    ∀ slot ∈ slots, slot.held = true := by
  induction slots with
  | nil => simp
  | cons slot later ih =>
    unfold takeFree? at full
    split at full
    · rename_i held
      exact forall_mem_cons.mpr ⟨held, ih (Option.map_eq_none_iff.mp full)⟩
    · cases full

/-- A name is used again if there is one to spare, and else a new one is declared. -/
lemma acquire_cases (reserved : List String) (r : TempRegistry) :
    ((r.acquire reserved).1 ∈ r.declared ∧ (r.acquire reserved).2.declared = r.declared ∧
      (r.acquire reserved).2.next = r.next) ∨
    (r.held = r.declared ∧ ∃ i, r.next ≤ i ∧ (r.acquire reserved).1 = tempName i ∧
      (r.acquire reserved).2.declared = r.declared ++ [tempName i] ∧
      (r.acquire reserved).2.next = i + 1) := by
  unfold acquire
  split
  · rename_i name slots taken
    obtain ⟨before, slot, after, eq, _, rfl, rfl⟩ := takeFree?_eq_some taken
    exact .inl (by simp [declared, eq])
  · rename_i full
    obtain ⟨i, eq, low, _⟩ := mint_eq reserved r.next
    refine .inr ⟨?_, i, low, by simp [eq], by simp [eq, declared], by simp [eq]⟩
    rw [held, declared, filter_eq_self.mpr (takeFree?_eq_none full)]

lemma claim_cases (reserved : List String) (r : TempRegistry) :
    ∃ i, r.next ≤ i ∧ (r.claim reserved).1 = tempName i ∧ (r.claim reserved).2 = { r with next :=
      i + 1 } := by
  obtain ⟨i, eq, low, _⟩ := mint_eq reserved r.next
  exact ⟨i, low, by simp [claim, eq], by simp [claim, eq]⟩

lemma release_declared (r : TempRegistry) (name : String) :
    (r.release name).2.declared = r.declared ∧ (r.release name).2.next = r.next := by
  unfold release
  split
  · rename_i slots freed
    obtain ⟨before, slot, after, eq, _, _, rfl⟩ := freeSlot?_eq_some freed
    simp [declared, eq]
  · exact ⟨rfl, rfl⟩

lemma release_of_not_mem_held (sound : r.Sound reserved) {name : String} (unheld : name ∉ r.held) :
    r.release name = (false, r) := by
  have told := (release_eq sound name).2.1
  unfold release at told ⊢
  split at told
  · exact absurd (told.mp rfl) unheld
  · rfl

lemma length_le_declared {names : List String} (distinct : names.Nodup)
    (used : ∀ name ∈ names, name ∈ r.held) : names.length ≤ r.declared.length :=
  (subperm_of_subset distinct fun name mem => mem_declared_of_mem_held (used name mem)).length_le

lemma Sound.held_nodup (sound : r.Sound reserved) : r.held.Nodup :=
  sound.nodup.sublist (filter_sublist.map _)

/-- A registry as its history left it. -/
structure Follows (reserved : List String) (h : TempHistory) (r : TempRegistry) : Prop where
  orderly : h.Orderly reserved
  sound : r.Sound reserved
  held : ∀ name, name ∈ r.held ↔ name ∈ h.held
  held_nodup : h.held.Nodup
  minted : ∀ name ∈ h.claimed, ∃ i < r.next, name = tempName i
  undeclared : ∀ name ∈ h.claimed, name ∉ r.declared
  peak : IsGreatest h.counts r.declared.length

namespace Follows

lemma empty (reserved : List String) : TempRegistry.empty.Follows reserved [] where
  orderly := .nil
  sound := empty_sound reserved
  held := by simp [TempRegistry.held, TempRegistry.empty, TempHistory.held]
  held_nodup := nodup_nil
  minted := by simp [TempHistory.claimed]
  undeclared := by simp [TempHistory.claimed]
  peak := by
    constructor
    · exact ⟨[], prefix_rfl, rfl⟩
    · rintro count ⟨before, earlier, rfl⟩
      rw [prefix_nil.mp earlier]
      exact Nat.le_refl 0

lemma admits_release (name : String) : h.Admits reserved (.released name) :=
  ⟨by rintro _ ⟨⟩, by rintro _ ⟨⟩, by rintro _ ⟨⟩⟩

variable (follows : r.Follows reserved h)

include follows

/-- A claimed name has a lower number than any that is still to come. -/
lemma claimed_ne {i : Nat} (low : r.next ≤ i) :
    tempName i ∉ h.claimed := by
  intro claimed
  obtain ⟨j, before, same⟩ := follows.minted _ claimed
  have := tempName_injective same
  omega

lemma minted_of_le {next : Nat} (le : r.next ≤ next) :
    ∀ name ∈ h.claimed, ∃ i < next, name = tempName i := by
  intro name claimed
  obtain ⟨i, before, same⟩ := follows.minted name claimed
  exact ⟨i, by omega, same⟩

lemma admits_acquire :
    h.Admits reserved (.acquired (r.acquire reserved).1) := by
  have handed := acquire_handedOut follows.sound
  refine ⟨?_, ?_, ?_⟩
  · rintro _ ⟨⟩
    exact handed.fresh
  · rintro _ ⟨⟩
    rcases acquire_cases reserved r with ⟨spare, _⟩ | ⟨_, i, low, name, _⟩
    · exact fun claimed => follows.undeclared _ claimed spare
    · exact name ▸ follows.claimed_ne low
  · rintro _ ⟨⟩
    exact fun held => handed.unheld ((follows.held _).mpr held)

lemma acquire :
    (r.acquire reserved).2.Follows reserved (h ++ [.acquired (r.acquire reserved).1]) := by
  have orderly := follows.orderly.concat follows.admits_acquire
  have handed := acquire_handedOut follows.sound
  have inUse : TempHistory.held (h ++ [.acquired (r.acquire reserved).1]) = h.held ++
    [(r.acquire reserved).1] :=
    TempHistory.held_concat
  have claims : TempHistory.claimed (h ++ [.acquired (r.acquire reserved).1]) = h.claimed := by
    simp [TempHistory.claimed_concat, TempEvent.claimed?]
  have same :
      ∀ name, name ∈ (r.acquire reserved).2.held ↔ name ∈ h.held ++ [(r.acquire reserved).1] := by
    intro name
    rw [handed.held, mem_append, mem_singleton, follows.held, or_comm]
  have distinct : (h.held ++ [(r.acquire reserved).1]).Nodup :=
    concat_eq_append ▸ follows.held_nodup.concat (follows.admits_acquire.unheld _ rfl)
  rcases acquire_cases reserved r with ⟨spare, declared, next⟩ | ⟨all, i, low, name, declared, next⟩
  · refine ⟨orderly, handed.sound, inUse ▸ same, inUse ▸ distinct, ?_, ?_, ?_⟩
    · exact claims ▸ next ▸ follows.minted
    · exact claims ▸ declared ▸ follows.undeclared
    · rw [declared]
      refine TempHistory.greatest_concat follows.peak ?_
      rw [inUse, ← declared]
      exact length_le_declared distinct fun name => (same name).mpr
  · refine ⟨orderly, handed.sound, inUse ▸ same, inUse ▸ distinct, ?_, ?_, ?_⟩
    · exact claims ▸ next ▸ follows.minted_of_le (by omega)
    · rw [claims, declared]
      intro other claimed
      refine not_mem_append (follows.undeclared other claimed) fun last => ?_
      exact follows.claimed_ne low (mem_singleton.mp last ▸ claimed)
    · -- All the declared names are in use, so the new one makes the greatest number.
      have count : h.held.length = r.declared.length := by
        rw [← all]
        exact ((perm_ext_iff_of_nodup follows.held_nodup follows.sound.held_nodup).mpr fun name =>
          (follows.held name).symm).length_eq
      rw [declared, length_append, length_singleton]
      refine TempHistory.greatest_succ follows.peak ?_
      rw [inUse, length_append, length_singleton, count]

lemma admits_claim :
    h.Admits reserved (.claimed (r.claim reserved).1) := by
  obtain ⟨i, low, name, _⟩ := claim_cases reserved r
  refine ⟨?_, ?_, ?_⟩
  · rintro _ ⟨⟩
    exact (claim_eq follows.sound).2.1
  · rintro _ ⟨⟩
    exact name ▸ follows.claimed_ne low
  · rintro _ ⟨⟩

lemma claim :
    (r.claim reserved).2.Follows reserved (h ++ [.claimed (r.claim reserved).1]) := by
  obtain ⟨i, low, name, after⟩ := claim_cases reserved r
  have inUse : TempHistory.held (h ++ [.claimed (r.claim reserved).1]) = h.held :=
    TempHistory.held_concat
  have claims : TempHistory.claimed (h ++ [.claimed (r.claim reserved).1]) = h.claimed ++
      [tempName i] := by
    simp [TempHistory.claimed_concat, TempEvent.claimed?, name]
  have sound := (claim_eq follows.sound).1
  rw [after] at sound ⊢
  refine ⟨follows.orderly.concat follows.admits_claim, sound, inUse ▸ follows.held,
    inUse ▸ follows.held_nodup, ?_, ?_, ?_⟩
  · rw [claims]
    intro other mem
    rcases mem_append.mp mem with before | last
    · exact follows.minted_of_le (Nat.le_succ_of_le low) other before
    · exact ⟨i, Nat.lt_succ_self i, mem_singleton.mp last⟩
  · rw [claims]
    intro other mem
    rcases mem_append.mp mem with before | last
    · exact follows.undeclared other before
    · exact mem_singleton.mp last ▸ follows.sound.not_mem_declared low
  · refine TempHistory.greatest_concat follows.peak ?_
    rw [inUse]
    exact length_le_declared follows.held_nodup fun name => (follows.held name).mpr

lemma release (name : String) :
    (r.release name).2.Follows reserved (h ++ [.released name]) := by
  obtain ⟨sound, _, held⟩ := release_eq follows.sound name
  obtain ⟨declared, next⟩ := release_declared r name
  have inUse : TempHistory.held (h ++ [.released name]) = h.held.erase name :=
    TempHistory.held_concat
  have claims : TempHistory.claimed (h ++ [.released name]) = h.claimed := by
    simp [TempHistory.claimed_concat, TempEvent.claimed?]
  have distinct : (h.held.erase name).Nodup := follows.held_nodup.erase name
  have same : ∀ other, other ∈ (r.release name).2.held ↔ other ∈ h.held.erase name := by
    intro other
    rw [held, follows.held_nodup.mem_erase_iff, follows.held]
  refine ⟨follows.orderly.concat (admits_release name), sound, inUse ▸ same,
    inUse ▸ distinct, ?_, ?_, ?_⟩
  · exact claims ▸ next ▸ follows.minted
  · exact claims ▸ declared ▸ follows.undeclared
  · rw [declared]
    refine TempHistory.greatest_concat follows.peak ?_
    rw [inUse, ← declared]
    exact length_le_declared distinct fun name => (same name).mpr

/-- Every answer becomes part of the history. -/
lemma answer (call : TempCall) :
    (r.answer reserved call).2.Follows reserved (h ++ [(r.answer reserved call).1]) := by
  cases call with
  | acquire => exact follows.acquire
  | claim => exact follows.claim
  | release name => exact follows.release name

end Follows

end TempRegistry

namespace Scopes

variable {s : Scopes} {id : ScopeId}

/-! ### The scopes of a file -/

def answer (s : Scopes) (id : ScopeId) : TempCall → TempEvent × Scopes
  | .acquire => (.acquired (s.acquire id).1, (s.acquire id).2)
  | .claim => (.claimed (s.claim id).1, (s.claim id).2)
  | .release name => (.released name, (s.release id name).2)

lemma keeper_lt (some : 0 < s.entries.size) : s.keeper id < s.entries.size := by
  unfold keeper
  split
  · assumption
  · exact some

lemma temps_setTemps_self {r : TempRegistry} (inside : id < s.entries.size) :
    (s.setTemps id r).temps id = r := by
  simp [temps, get?, setTemps, update, inside]

lemma setTemps_temps : s.setTemps id (s.temps id) = s := by
  unfold setTemps update
  split
  · rename_i inside
    have same : s.temps id = s.entries[id].temps := by simp [temps, get?, inside]
    rw [same]
    exact congrArg (fun entries => (⟨entries, s.identifiers⟩ : Scopes))
      (Array.set_getElem_self inside)
  · rfl

/-- Only the registry that keeps the names of the scope is asked and changed. -/
lemma answer_eq (some : 0 < s.entries.size) (id : ScopeId) (call : TempCall) :
    s.answer id call = (((s.temps (s.keeper id)).answer s.identifiers call).1,
      s.setTemps (s.keeper id) ((s.temps (s.keeper id)).answer s.identifiers call).2) := by
  cases call <;>
    simp only [answer, TempRegistry.answer, acquire, claim, release, ensured_eq_of_pos some]

end Scopes

/-- Scopes in use, with what happened to each so far, oldest first. -/
structure TempRun where
  log : List (ScopeId × TempEvent)
  scopes : Scopes

namespace TempRun

def step (run : TempRun) (call : ScopeId × TempCall) : TempRun :=
  ⟨run.log ++ [(run.scopes.keeper call.1, (run.scopes.answer call.1 call.2).1)],
    (run.scopes.answer call.1 call.2).2⟩

/-- The scopes of a file after some calls. -/
def after (t : Table) (root : NodeId) (calls : List (ScopeId × TempCall)) : TempRun :=
  calls.foldl step ⟨[], (Binding.ofTable t root).scopes⟩

/-- What happened to the registry that keeps the names of a scope. -/
def history (run : TempRun) (id : ScopeId) : TempHistory :=
  run.log.filterMap fun entry => if entry.1 = run.scopes.keeper id then some entry.2 else none

/-- The names that a scope declares. -/
def declared (run : TempRun) (id : ScopeId) : List String :=
  run.scopes.declaredTemps (run.scopes.keeper id)

/-- Every registry is as its history left it. -/
structure Tracked (t : Table) (run : TempRun) : Prop where
  some : 0 < run.scopes.entries.size
  identifiers : run.scopes.identifiers = Binding.spellings t
  follows : ∀ id, (run.scopes.temps (run.scopes.keeper id)).Follows (Binding.spellings t)
    (run.history id)

variable {t : Table} {run : TempRun}

lemma tracked_bound (t : Table) (root : NodeId) :
    Tracked t ⟨[], (Binding.ofTable t root).scopes⟩ := by
  obtain ⟨identifiers, fresh⟩ := untouched_ofTable t root
  have some := ofTable_size_pos t root
  refine ⟨some, identifiers, fun id => ?_⟩
  have inside : (Binding.ofTable t root).scopes.keeper id < _ := keeper_lt some
  have unused := fresh _ (Array.getElem_mem inside)
  rw [Scopes.temps, Scopes.get?, Array.getElem?_eq_getElem inside, Option.map_some, unused]
  exact .empty _

lemma keeper_step (tracked : run.Tracked t) (call : ScopeId × TempCall) (id : ScopeId) :
    (run.step call).scopes.keeper id = run.scopes.keeper id := by
  simp [step, answer_eq tracked.some, Scopes.keeper]

lemma history_step (tracked : run.Tracked t) (call : ScopeId × TempCall) (id : ScopeId) :
    (run.step call).history id = run.history id ++
      if run.scopes.keeper call.1 = run.scopes.keeper
        id then [(run.scopes.answer call.1 call.2).1] else [] := by
  rw [history, keeper_step tracked]
  split <;> simp [step, history, *]

lemma Tracked.step (tracked : run.Tracked t) (call : ScopeId × TempCall) :
    (run.step call).Tracked t := by
  have answer := answer_eq tracked.some call.1 call.2
  refine ⟨?_, ?_, fun id => ?_⟩
  · simpa [TempRun.step, answer] using tracked.some
  · simpa [TempRun.step, answer] using tracked.identifiers
  · rw [keeper_step tracked, history_step tracked]
    by_cases same : run.scopes.keeper call.1 = run.scopes.keeper id
    · rw [if_pos same, TempRun.step, answer, same, tracked.identifiers,
        temps_setTemps_self (keeper_lt tracked.some)]
      exact (tracked.follows id).answer call.2
    · rw [if_neg same, append_nil, TempRun.step, answer, Scopes.temps,
        get?_setTemps _ (Ne.symm same)]
      exact tracked.follows id

lemma tracked_after (t : Table) (root : NodeId) (calls : List (ScopeId × TempCall)) :
    (after t root calls).Tracked t := by
  have start := tracked_bound t root
  unfold after
  generalize (⟨[], (Binding.ofTable t root).scopes⟩ : TempRun) = run at start
  induction calls generalizing run with
  | nil => exact start
  | cons call calls ih => exact ih _ (start.step call)

/-- What a scope is promised. The names that are handed out are spelled nowhere in the file. An
acquired name was not in use. The names that the scope declares differ, and so do the claimed ones;
those are not declared and not handed out again. Nothing happens to a name that is given back
without being in use. As many names are declared as were in use at once, and the other scopes are
left alone. -/
structure Hygienic (t : Table) (run : TempRun) (id : ScopeId) : Prop where
  unspelled : ∀ name ∈ (run.history id).returned, ∀ node ∈ t.nodes, node.form.name? ≠ some name
  unheld : ∀ before name, before ++ [.acquired name] <+: run.history id →
    name ∉ TempHistory.held before
  declared_nodup : (run.declared id).Nodup
  claimed_nodup : (run.history id).claimed.Nodup
  claimed_undeclared : ∀ name ∈ (run.history id).claimed, name ∉ run.declared id
  claimed_once : ∀ before name after, run.history id = before ++ .claimed name :: after →
    name ∉ TempHistory.returned after
  release_unheld : ∀ name, name ∉ (run.history id).held → run.scopes.release id name =
    (false, run.scopes)
  declared_peak : IsGreatest (run.history id).counts (run.declared id).length
  frame : ∀ call other, other ≠ run.scopes.keeper id →
    (run.scopes.answer id call).2.get? other = run.scopes.get? other

end TempRun

/-- Temporaries are hygienic over whole runs: whatever is acquired, claimed and given back in the
scopes of a file, in whatever order, each scope keeps its promises. -/
theorem temporaries_stay_hygienic (t : Table) (root : NodeId) (calls : List (ScopeId × TempCall))
    (id : ScopeId) : (TempRun.after t root calls).Hygienic t id := by
  have tracked := TempRun.tracked_after t root calls
  generalize TempRun.after t root calls = run at tracked
  have follows := tracked.follows id
  refine ⟨?_, ?_, ?_, ?_, ?_, ?_, ?_, ?_, ?_⟩
  · intro name returned node isNode spelled
    refine follows.orderly.unreserved name returned ?_
    rw [Binding.spellings, mem_eraseDups]
    exact mem_filterMap.mpr ⟨node, isNode.val, spelled⟩
  · intro before name early
    exact (follows.orderly before (.acquired name) early).unheld name rfl
  · exact follows.sound.nodup
  · exact follows.orderly.claimed_nodup
  · exact follows.undeclared
  · intro before name after isClaim
    exact follows.orderly.claimed_once isClaim
  · intro name unheld
    have unknown := TempRegistry.release_of_not_mem_held follows.sound
      fun held => unheld ((follows.held name).mp held)
    rw [Scopes.release, ensured_eq_of_pos tracked.some]
    simp only [unknown, setTemps_temps]
  · exact follows.peak
  · intro call other apart
    rw [answer_eq tracked.some, get?_setTemps _ apart]

end PatternLowering

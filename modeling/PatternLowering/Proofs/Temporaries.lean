import Mathlib
import PatternLowering.Scope

/-!
# Temporaries are fresh

A registry hands out names that are spelled nowhere in the file and are not in use. The facts are
stated for one registry first and then for the scopes that keep one each. Scopes are reachable when
they arise from those of a bound program by handing out, claiming and giving back names.
-/

namespace PatternLowering

open List

lemma isDigit_of_mem_toString (k : Nat) (c : Char) (mem : c ∈ (toString k).toList) :
    c.isDigit = true := by
  rw [show toString k = Nat.repr k from rfl, Nat.toList_repr] at mem
  exact Nat.isDigit_of_mem_toDigits (by decide) (by decide) mem

lemma tempName_toList_of_lt {i : Nat} (small : i < 26) :
    (tempName i).toList = ['_', Char.ofNat ('a'.toNat + i)] := by
  simp [tempName, small]

lemma tempName_toList_of_le {i : Nat} (large : 26 ≤ i) :
    (tempName i).toList = '_' :: (toString (i - 26)).toList := by
  unfold tempName
  rw [if_neg (by omega), String.toList_append]
  rfl

/-- A name with a letter is no name with a number. -/
lemma tempName_ne_of_lt_of_le {i j : Nat} (small : i < 26) (large : 26 ≤ j) :
    tempName i ≠ tempName j := by
  intro same
  have chars := congrArg String.toList same
  rw [tempName_toList_of_lt small, tempName_toList_of_le large, List.cons.injEq] at chars
  have mem : Char.ofNat ('a'.toNat + i) ∈ (toString (j - 26)).toList := by
    rw [← chars.2]
    exact mem_singleton_self _
  have letter : ∀ k, k < 26 → (Char.ofNat ('a'.toNat + k)).isDigit = false := by decide
  have digit := isDigit_of_mem_toString _ _ mem
  rw [letter i small] at digit
  cases digit

lemma tempName_injective {i j : Nat} (same : tempName i = tempName j) : i = j := by
  rcases Nat.lt_or_ge i 26 with hi | hi <;> rcases Nat.lt_or_ge j 26 with hj | hj
  · have chars := congrArg String.toList same
    rw [tempName_toList_of_lt hi, tempName_toList_of_lt hj] at chars
    simp only [List.cons.injEq, and_true, true_and] at chars
    have code : ∀ k, k < 26 → (Char.ofNat ('a'.toNat + k)).toNat = 97 + k := by decide
    have codes := congrArg Char.toNat chars
    rw [code i hi, code j hj] at codes
    omega
  · exact absurd same (tempName_ne_of_lt_of_le hi hj)
  · exact absurd same.symm (tempName_ne_of_lt_of_le hj hi)
  · have chars := congrArg String.toList same
    rw [tempName_toList_of_le hi, tempName_toList_of_le hj, List.cons.injEq] at chars
    have := Nat.repr_inj.mp (String.toList_inj.mp chars.2)
    omega

namespace TempRegistry

/-- The search passes over reserved names only, and stops early only at a free one. -/
lemma mintWithin_eq (reserved : List String) (bound index : Nat) :
    ∃ i, mintWithin reserved bound index = (tempName i, i + 1) ∧ index ≤ i ∧ i ≤ index + bound ∧
      (∀ j, index ≤ j → j < i → tempName j ∈ reserved) ∧
      (i < index + bound → tempName i ∉ reserved) := by
  induction bound generalizing index with
  | zero => exact ⟨index, rfl, Nat.le_refl _, Nat.le_refl _, by omega, by omega⟩
  | succ bound ih =>
    unfold mintWithin
    split
    · rename_i taken
      obtain ⟨i, eq, low, high, passed, free⟩ := ih (index + 1)
      refine ⟨i, eq, by omega, by omega, ?_, fun h => free (by omega)⟩
      intro j hj hi
      rcases Nat.eq_or_lt_of_le hj with rfl | hj
      · exact taken
      · exact passed j hj hi
    · rename_i free
      exact ⟨index, rfl, Nat.le_refl _, by omega, by omega, fun _ => free⟩

/-- The names that are passed over are different reserved ones. -/
lemma passed_le_card {reserved : List String} {index rounds : Nat}
    (passed : ∀ j, index ≤ j → j < index + rounds → tempName j ∈ reserved) :
    rounds ≤ reserved.toFinset.card := by
  have inside : ∀ j ∈ Finset.Ico index (index + rounds), tempName j ∈ reserved.toFinset := by
    intro j mem
    obtain ⟨low, high⟩ := Finset.mem_Ico.mp mem
    exact mem_toFinset.mpr (passed j low high)
  have distinct : Set.InjOn tempName (Finset.Ico index (index + rounds)) :=
    fun _ _ _ _ same => tempName_injective same
  calc rounds = (Finset.Ico index (index + rounds)).card := by rw [Nat.card_Ico,
    Nat.add_sub_cancel_left]
    _ ≤ reserved.toFinset.card := Finset.card_le_card_of_injOn tempName inside distinct

/-- The first name from `index` on that is not reserved. -/
lemma mint_eq (reserved : List String) (index : Nat) :
    ∃ i, mint reserved index = (tempName i, i + 1) ∧ index ≤ i ∧ i ≤ index + reserved.length ∧
      (∀ j, index ≤ j → j < i → tempName j ∈ reserved) ∧ tempName i ∉ reserved := by
  obtain ⟨i, eq, low, high, passed, free⟩ := mintWithin_eq reserved reserved.length index
  refine ⟨i, eq, low, high, passed, fun taken => ?_⟩
  have last : i = index + reserved.length := by
    by_contra other
    exact free (by omega) taken
  -- One more different name than there are reserved ones would be reserved.
  have all : ∀ j, index ≤ j → j < index + (reserved.length + 1) → tempName j ∈ reserved := by
    intro j low high
    rcases Nat.eq_or_lt_of_le (show j ≤ i by omega) with rfl | early
    · exact taken
    · exact passed j low early
  exact absurd ((passed_le_card all).trans reserved.toFinset_card_le) (by omega)

/-- What a registry promises: its slots have different names, handed out in order, and none of them
is reserved. -/
structure Sound (reserved : List String) (r : TempRegistry) : Prop where
  minted : ∀ slot ∈ r.slots, ∃ i, i < r.next ∧ slot.name = tempName i
  fresh : ∀ slot ∈ r.slots, slot.name ∉ reserved
  nodup : r.declared.Nodup

lemma empty_sound (reserved : List String) : empty.Sound reserved :=
  ⟨by simp [empty], by simp [empty], by simp [empty, declared]⟩

variable {reserved : List String} {r : TempRegistry} {name : String}

lemma takeFree?_eq_some {slots slots' : List TempSlot}
    (taken : takeFree? slots = some (name, slots')) :
    ∃ before slot after, slots = before ++ slot :: after ∧ slot.held = false ∧ slot.name = name ∧
      slots' = before ++ ⟨name, true⟩ :: after := by
  induction slots generalizing slots' with
  | nil => cases taken
  | cons slot later ih =>
    unfold takeFree? at taken
    split at taken
    · rename_i held
      simp only [Option.map_eq_some_iff, Prod.exists, Prod.mk.injEq] at taken
      obtain ⟨found, rest, eq, rfl, rfl⟩ := taken
      obtain ⟨before, free, after, rfl, unheld, rfl, rfl⟩ := ih eq
      exact ⟨slot :: before, free, after, rfl, unheld, rfl, rfl⟩
    · rename_i free
      cases taken
      exact ⟨[], slot, later, rfl, by simpa using free, rfl, rfl⟩

lemma mem_held (r : TempRegistry) (x : String) :
    x ∈ r.held ↔ ∃ slot ∈ r.slots, slot.held = true ∧ slot.name = x := by
  simp [held, and_assoc]

lemma mem_declared_of_mem_held {x : String} (h : x ∈ r.held) : x ∈ r.declared := by
  obtain ⟨slot, mem, _, rfl⟩ := (mem_held r x).mp h
  exact mem_map_of_mem mem

/-- A name that was not minted before is not declared. -/
lemma Sound.not_mem_declared (sound : r.Sound reserved) {i : Nat} (later : r.next ≤ i) :
    tempName i ∉ r.declared := by
  intro mem
  obtain ⟨slot, inSlots, eq⟩ := mem_map.mp mem
  obtain ⟨j, hj, name⟩ := sound.minted slot inSlots
  have := tempName_injective (name.symm.trans eq)
  omega

/-- Only the flag of one slot changes, so only the use of its name does. -/
lemma Sound.setHeld (sound : r.Sound reserved) {before after : List TempSlot} {slot : TempSlot}
    (eq : r.slots = before ++ slot :: after) (flag : Bool) :
    Sound reserved { r with slots := before ++ { slot with held := flag } :: after } ∧
      ∀ x, x ∈ held { r with slots := before ++ { slot with held := flag } :: after } ↔
        (x = slot.name ∧ flag = true) ∨ (x ≠ slot.name ∧ x ∈ r.held) := by
  have nodup := sound.nodup
  unfold declared at nodup
  rw [eq, map_append, map_cons] at nodup
  have apart := nodup_middle.mp nodup
  rw [← map_append, nodup_cons] at apart
  have elsewhere : ∀ other ∈ before ++ after, other.name ≠ slot.name := by
    intro other mem same
    exact apart.1 (same ▸ mem_map_of_mem mem)
  have split : ∀ (middle other : TempSlot), other ∈ before ++ middle :: after ↔
      other = middle ∨ other ∈ before ++ after := by
    intro middle other
    simp only [mem_append, mem_cons]
    tauto
  constructor
  · refine ⟨?_, ?_, by simpa [declared] using nodup⟩
    · intro other mem
      rcases (split _ other).mp mem with rfl | mem
      · exact sound.minted slot (eq ▸ by simp)
      · exact sound.minted other (eq ▸ (split slot other).mpr (.inr mem))
    · intro other mem
      rcases (split _ other).mp mem with rfl | mem
      · exact sound.fresh slot (eq ▸ by simp)
      · exact sound.fresh other (eq ▸ (split slot other).mpr (.inr mem))
  · intro x
    rw [mem_held, mem_held, eq]
    constructor
    · rintro ⟨other, mem, used, rfl⟩
      rcases (split _ other).mp mem with rfl | mem
      · exact .inl ⟨rfl, used⟩
      · exact .inr ⟨elsewhere other mem, other, (split slot other).mpr (.inr mem), used, rfl⟩
    · rintro (⟨rfl, used⟩ | ⟨different, other, mem, used, rfl⟩)
      · exact ⟨{ slot with held := flag }, (split _ _).mpr (.inl rfl), used, rfl⟩
      · rcases (split _ other).mp mem with rfl | mem
        · exact absurd rfl different
        · exact ⟨other, (split _ other).mpr (.inr mem), used, rfl⟩

/-- A declared name is in use exactly if its slot is. -/
lemma Sound.mem_held_slot (sound : r.Sound reserved) {slot : TempSlot} (mem : slot ∈ r.slots) :
    slot.name ∈ r.held ↔ slot.held = true := by
  constructor
  · intro used
    obtain ⟨other, inSlots, flag, same⟩ := (mem_held r _).mp used
    rwa [← inj_on_of_nodup_map sound.nodup inSlots mem same]
  · intro flag
    exact (mem_held r _).mpr ⟨slot, mem, flag, rfl⟩

/-- What a registry hands out is spelled like no reserved name and not in use, and in use after. -/
structure HandedOut (reserved : List String) (r : TempRegistry) (name : String)
    (r' : TempRegistry) : Prop where
  sound : r'.Sound reserved
  fresh : name ∉ reserved
  unheld : name ∉ r.held
  held : ∀ x, x ∈ r'.held ↔ x = name ∨ x ∈ r.held

lemma acquire_handedOut (sound : r.Sound reserved) :
    HandedOut reserved r (r.acquire reserved).1 (r.acquire reserved).2 := by
  unfold acquire
  split
  · rename_i name slots taken
    obtain ⟨before, slot, after, eq, free, rfl, rfl⟩ := takeFree?_eq_some taken
    have mem : slot ∈ r.slots := eq ▸ by simp
    have unheld : slot.name ∉ r.held := by
      rw [sound.mem_held_slot mem, free]
      simp
    obtain ⟨kept, held⟩ := sound.setHeld eq true
    refine ⟨kept, sound.fresh slot mem, unheld, fun x => (held x).trans ?_⟩
    constructor
    · rintro (⟨rfl, _⟩ | ⟨_, used⟩)
      · exact .inl rfl
      · exact .inr used
    · rintro (rfl | used)
      · exact .inl ⟨rfl, rfl⟩
      · exact .inr ⟨fun same => unheld (same ▸ used), used⟩
  · obtain ⟨i, eq, low, _, _, free⟩ := mint_eq reserved r.next
    simp only [eq]
    have undeclared := sound.not_mem_declared low
    refine ⟨⟨?_, ?_, ?_⟩, free, fun mem => undeclared (mem_declared_of_mem_held mem), ?_⟩
    · intro slot mem
      rcases mem_append.mp mem with mem | mem
      · obtain ⟨j, hj, name⟩ := sound.minted slot mem
        exact ⟨j, show j < i + 1 by omega, name⟩
      · rw [mem_singleton.mp mem]
        exact ⟨i, Nat.lt_succ_self i, rfl⟩
    · intro slot mem
      rcases mem_append.mp mem with mem | mem
      · exact sound.fresh slot mem
      · rw [mem_singleton.mp mem]
        exact free
    · simp only [declared, map_append, map_cons, map_nil]
      refine nodup_append.mpr ⟨sound.nodup, nodup_singleton _, ?_⟩
      intro x hx y hy same
      rw [mem_singleton.mp hy] at same
      exact undeclared (same ▸ hx)
    · intro x
      simp only [mem_held, mem_append, mem_singleton]
      constructor
      · rintro ⟨slot, mem | rfl, used, rfl⟩
        · exact .inr ⟨slot, mem, used, rfl⟩
        · exact .inl rfl
      · rintro (rfl | ⟨slot, mem, used, rfl⟩)
        · exact ⟨_, .inr rfl, rfl, rfl⟩
        · exact ⟨slot, .inl mem, used, rfl⟩

/-- A claimed name is new, and no slot changes. -/
lemma claim_eq (sound : r.Sound reserved) :
    (r.claim reserved).2.Sound reserved ∧ (r.claim reserved).1 ∉ reserved ∧
      (r.claim reserved).1 ∉ r.declared ∧ (r.claim reserved).2.slots = r.slots := by
  obtain ⟨i, eq, low, _, _, free⟩ := mint_eq reserved r.next
  unfold claim
  simp only [eq]
  refine ⟨⟨?_, sound.fresh, sound.nodup⟩, free, sound.not_mem_declared low, trivial⟩
  intro slot mem
  obtain ⟨j, hj, name⟩ := sound.minted slot mem
  exact ⟨j, show j < i + 1 by omega, name⟩

lemma freeSlot?_eq_some {slots slots' : List TempSlot}
    (freed : freeSlot? name slots = some slots') :
    ∃ before slot after, slots = before ++ slot :: after ∧ slot.held = true ∧ slot.name = name ∧
      slots' = before ++ { slot with held := false } :: after := by
  induction slots generalizing slots' with
  | nil => cases freed
  | cons slot later ih =>
    unfold freeSlot? at freed
    split at freed
    · rename_i same
      split at freed
      · rename_i held
        cases freed
        exact ⟨[], slot, later, rfl, held, same, rfl⟩
      · cases freed
    · simp only [Option.map_eq_some_iff] at freed
      obtain ⟨rest, eq, rfl⟩ := freed
      obtain ⟨before, found, after, rfl, held, rfl, rfl⟩ := ih eq
      exact ⟨slot :: before, found, after, rfl, held, rfl, rfl⟩

lemma freeSlot?_eq_none {slots : List TempSlot} (nodup : (slots.map (·.name)).Nodup)
    (unknown : freeSlot? name slots = none) :
    ∀ slot ∈ slots, slot.name = name → slot.held = false := by
  induction slots with
  | nil => simp
  | cons slot later ih =>
    rw [map_cons, nodup_cons] at nodup
    unfold freeSlot? at unknown
    intro other mem same
    split at unknown
    · rename_i here
      split at unknown
      · cases unknown
      · rename_i unheld
        rcases mem_cons.mp mem with rfl | mem
        · simpa using unheld
        · exact absurd (mem_map_of_mem mem) (same.trans here.symm ▸ nodup.1)
    · rename_i elsewhere
      rcases mem_cons.mp mem with rfl | mem
      · exact absurd same elsewhere
      · exact ih nodup.2 (Option.map_eq_none_iff.mp unknown) other mem same

/-- Only the name given back is no longer in use; it was in use if that is told. -/
lemma release_eq (sound : r.Sound reserved) (name : String) :
    (r.release name).2.Sound reserved ∧ ((r.release name).1 = true ↔ name ∈ r.held) ∧
      ∀ x, x ∈ (r.release name).2.held ↔ x ≠ name ∧ x ∈ r.held := by
  unfold release
  split
  · rename_i slots freed
    obtain ⟨before, slot, after, eq, used, rfl, rfl⟩ := freeSlot?_eq_some freed
    obtain ⟨kept, held⟩ := sound.setHeld eq false
    have mem : slot ∈ r.slots := eq ▸ by simp
    refine ⟨kept, by simp [sound.mem_held_slot mem, used], fun x => (held x).trans ?_⟩
    simp
  · rename_i unknown
    have unheld : name ∉ r.held := by
      rw [mem_held]
      rintro ⟨slot, mem, used, same⟩
      rw [freeSlot?_eq_none sound.nodup unknown slot mem same] at used
      cases used
    refine ⟨sound, by simp [unheld], fun x => ?_⟩
    constructor
    · intro used
      exact ⟨fun same => unheld (same ▸ used), used⟩
    · exact And.right

end TempRegistry

namespace Scopes

/-- Every registry keeps its promise, with the spellings of the file reserved. -/
def Sound (s : Scopes) : Prop := ∀ scope ∈ s.entries, scope.temps.Sound s.identifiers

/-- The registry that answers for a scope. -/
def registry (s : Scopes) (id : ScopeId) : TempRegistry := s.ensured.temps (s.ensured.keeper id)

/-- The temporaries in use in a scope. -/
def held (s : Scopes) (id : ScopeId) : List String := (s.registry id).held

lemma ensured_size_pos (s : Scopes) : 0 < s.ensured.entries.size := by
  unfold ensured
  split
  · simp [push]
  · rename_i nonempty
    simpa [Nat.pos_iff_ne_zero] using nonempty

lemma keeper_ensured_lt (s : Scopes) (id : ScopeId) :
    s.ensured.keeper id < s.ensured.entries.size := by
  unfold keeper
  split
  · assumption
  · exact s.ensured_size_pos

@[simp] lemma ensured_identifiers (s : Scopes) : s.ensured.identifiers = s.identifiers := by
  unfold ensured
  split <;> rfl

variable {s : Scopes}

lemma ensured_eq_of_pos (nonempty : 0 < s.entries.size) : s.ensured = s := by
  unfold ensured
  rw [if_neg (by simpa [Nat.pos_iff_ne_zero] using nonempty)]

lemma Sound.ensured (sound : s.Sound) : s.ensured.Sound := by
  unfold Scopes.ensured
  split
  · intro scope mem
    rcases Array.mem_push.mp mem with mem | rfl
    · exact sound scope mem
    · exact TempRegistry.empty_sound _
  · exact sound

lemma Sound.registry (sound : s.Sound) (id : ScopeId) : (s.registry id).Sound s.identifiers := by
  have lt := s.keeper_ensured_lt id
  unfold Scopes.registry temps get?
  rw [Array.getElem?_eq_getElem lt, ← s.ensured_identifiers]
  exact sound.ensured _ (Array.getElem_mem lt)

lemma mem_update {id : ScopeId} {f : Scope → Scope} {scope : Scope}
    (mem : scope ∈ (s.update id f).entries) :
    scope ∈ s.entries ∨ ∃ old ∈ s.entries, scope = f old := by
  unfold update at mem
  split at mem
  · rename_i lt
    obtain ⟨i, hi, rfl⟩ := Array.mem_iff_getElem.mp mem
    simp only [Array.size_set] at hi
    by_cases same : id = i
    · subst same
      exact .inr ⟨s.entries[id], Array.getElem_mem lt, by simp⟩
    · rw [Array.getElem_set_ne lt hi same]
      exact .inl (Array.getElem_mem hi)
  · exact .inl mem

@[simp] lemma update_identifiers (s : Scopes) (id : ScopeId) (f : Scope → Scope) :
    (s.update id f).identifiers = s.identifiers := by
  unfold update
  split <;> rfl

@[simp] lemma setTemps_size (s : Scopes) (id : ScopeId) (r : TempRegistry) :
    (s.setTemps id r).entries.size = s.entries.size := by
  unfold setTemps update
  split <;> simp

@[simp] lemma setTemps_identifiers (s : Scopes) (id : ScopeId) (r : TempRegistry) :
    (s.setTemps id r).identifiers = s.identifiers :=
  s.update_identifiers id _

lemma get?_setTemps {id other : ScopeId} (r : TempRegistry) (apart : other ≠ id) :
    (s.setTemps id r).get? other = s.get? other := by
  unfold setTemps update get?
  split
  · rw [Array.getElem?_set, if_neg apart.symm]
  · rfl

lemma registry_setTemps (s : Scopes) (id : ScopeId) (r : TempRegistry) :
    (s.ensured.setTemps (s.ensured.keeper id) r).registry id = r := by
  have lt := s.keeper_ensured_lt id
  have pos := s.ensured_size_pos
  unfold registry
  rw [ensured_eq_of_pos (by simpa using pos)]
  have keeper : (s.ensured.setTemps (s.ensured.keeper id) r).keeper id = s.ensured.keeper id := by
    simp [Scopes.keeper]
  rw [keeper]
  simp [setTemps, update, temps, get?, lt]

lemma Sound.setTemps (sound : s.Sound) (id : ScopeId) {r : TempRegistry}
    (kept : r.Sound s.identifiers) : (s.ensured.setTemps (s.ensured.keeper id) r).Sound := by
  intro scope mem
  rw [setTemps_identifiers, ensured_identifiers]
  rcases mem_update mem with mem | ⟨old, _, rfl⟩
  · rw [← s.ensured_identifiers]
    exact sound.ensured scope mem
  · exact kept

section Requests

variable (id : ScopeId) (name : String)

lemma Sound.acquire (sound : s.Sound) : (s.acquire id).2.Sound := by
  refine sound.setTemps id ?_
  rw [ensured_identifiers]
  exact (TempRegistry.acquire_handedOut (sound.registry id)).sound

lemma Sound.claim (sound : s.Sound) : (s.claim id).2.Sound := by
  refine sound.setTemps id ?_
  rw [ensured_identifiers]
  exact (TempRegistry.claim_eq (sound.registry id)).1

lemma Sound.release (sound : s.Sound) : (s.release id name).2.Sound :=
  sound.setTemps id (TempRegistry.release_eq (sound.registry id) name).1

variable (s)

lemma acquire_name : (s.acquire id).1 = ((s.registry id).acquire s.identifiers).1 := by
  simp [acquire, registry]

lemma acquire_registry :
    (s.acquire id).2.registry id = ((s.registry id).acquire s.identifiers).2 := by
  unfold acquire
  rw [registry_setTemps, ensured_identifiers]
  rfl

@[simp] lemma acquire_identifiers : (s.acquire id).2.identifiers = s.identifiers := by
  simp [acquire]

lemma claim_name : (s.claim id).1 = ((s.registry id).claim s.identifiers).1 := by
  simp [claim, registry]

lemma claim_registry : (s.claim id).2.registry id = ((s.registry id).claim s.identifiers).2 := by
  unfold claim
  rw [registry_setTemps, ensured_identifiers]
  rfl

@[simp] lemma claim_identifiers : (s.claim id).2.identifiers = s.identifiers := by
  simp [claim]

lemma release_registry : (s.release id name).2.registry id = ((s.registry id).release name).2 := by
  unfold release
  rw [registry_setTemps]
  rfl

@[simp] lemma release_identifiers : (s.release id name).2.identifiers = s.identifiers := by
  simp [release]

end Requests

/-- The scopes that can come about: those of a program, and what requests make of them. -/
inductive Reachable (t : Table) (root : NodeId) : Scopes → Prop where
  | bound : Reachable t root (Binding.ofTable t root).scopes
  | acquire {s : Scopes} (before : Reachable t root s) (id : ScopeId) :
    Reachable t root (s.acquire id).2
  | claim {s : Scopes} (before : Reachable t root s) (id : ScopeId) :
    Reachable t root (s.claim id).2
  | release {s : Scopes} (before : Reachable t root s) (id : ScopeId) (name : String) :
    Reachable t root (s.release id name).2

/-- No temporary has been asked for yet. -/
def Untouched (identifiers : List String) (s : Scopes) : Prop :=
  s.identifiers = identifiers ∧ ∀ scope ∈ s.entries, scope.temps = .empty

lemma Untouched.push {ids : List String} (fresh : s.Untouched ids) (node : Option NodeId)
    (parent : Option ScopeId) : (s.push node parent).2.Untouched ids := by
  refine ⟨fresh.1, fun scope mem => ?_⟩
  rcases Array.mem_push.mp mem with mem | rfl
  · exact fresh.2 scope mem
  · rfl

lemma Untouched.declare {ids : List String} (fresh : s.Untouched ids) (id : ScopeId)
    (names : List String) : (s.declare id names).Untouched ids := by
  refine ⟨(update_identifiers s id _).trans fresh.1, fun scope mem => ?_⟩
  rcases mem_update mem with mem | ⟨old, before, rfl⟩
  · exact fresh.2 scope mem
  · exact fresh.2 old before

/-- What opening a scope and declaring names in one keep holds of all the scopes under a node. -/
lemma preserves_bind {P : Scopes → Prop}
    (push : ∀ s node parent, P s → P (Scopes.push s node parent).2)
    (declare : ∀ s id names, P s → P (Scopes.declare s id names)) (t : Table) (depth : Nat)
    (scope : ScopeId) (n : NodeId) (b : Binding) (before : P b.scopes) :
    P (Binding.bind t depth scope n b).scopes := by
  induction depth generalizing scope n b with
  | zero => exact before
  | succ depth ih =>
    unfold Binding.bind
    split
    · exact before
    · rename_i form _
      have entered : P (Binding.enter t scope n form b.scopes).2 := by
        unfold Binding.enter
        split
        · exact declare _ _ _ (push _ _ _ (declare _ _ _ before))
        · exact declare _ _ _ (push _ _ _ before)
        · exact declare _ _ _ before
        · exact before
      generalize Binding.enter t scope n form b.scopes = inner at entered
      have all : ∀ (parts : List NodeId) (b : Binding), P b.scopes →
          P (parts.foldl (fun b part => Binding.bind t depth inner.1 part b) b).scopes := by
        intro parts
        induction parts with
        | nil => exact fun _ h => h
        | cons part later later_ih => exact fun b h => later_ih _ (ih inner.1 part b h)
      exact all form.children _ entered

lemma untouched_ofTable (t : Table) (root : NodeId) :
    (Binding.ofTable t root).scopes.Untouched (Binding.spellings t) := by
  have none : Untouched (Binding.spellings t) ⟨#[], Binding.spellings t⟩ := ⟨rfl, by simp⟩
  exact preserves_bind (fun _ node parent fresh => fresh.push node parent)
    (fun _ id names fresh => fresh.declare id names) t _ _ _ _ (none.push _ _)

/-- There is a scope for the program at least. -/
lemma ofTable_size_pos (t : Table) (root : NodeId) :
    0 < (Binding.ofTable t root).scopes.entries.size := by
  refine preserves_bind (P := fun s => 0 < s.entries.size) ?_ ?_ t _ _ _ _ ?_
  · simp [push]
  · intro s id names some
    unfold declare update
    split
    · simpa using some
    · exact some
  · simp

lemma Reachable.sound {t : Table} {root : NodeId} (reached : Reachable t root s) :
    s.Sound ∧ s.identifiers = Binding.spellings t := by
  induction reached with
  | bound =>
    have fresh := untouched_ofTable t root
    refine ⟨fun scope mem => ?_, fresh.1⟩
    rw [fresh.2 scope mem]
    exact TempRegistry.empty_sound _
  | acquire _ id ih => exact ⟨ih.1.acquire id, by rw [acquire_identifiers, ih.2]⟩
  | claim _ id ih => exact ⟨ih.1.claim id, by rw [claim_identifiers, ih.2]⟩
  | release _ id name ih => exact ⟨ih.1.release id name, by rw [release_identifiers, ih.2]⟩

end Scopes

end PatternLowering

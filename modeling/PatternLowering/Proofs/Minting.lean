import PatternLowering.Proofs.Temporaries

/-!
# Minting

A registry looks for a name by trying one index after the other until it meets a name that nobody
reserved. Only the names themselves bound the search: different indices have different names, so it
passes over each reserved one at most once. The indices it tries are kept in 32 bits, and so is the
one behind them.
-/

namespace PatternLowering.TempRegistry

/-- A search for a name is about to try an index, or has found a name and keeps the index behind it,
or has no index left. -/
inductive Search where
  | trying (index : UInt32)
  | found (name : String) (next : UInt32)
  | overflow
deriving DecidableEq, Repr

namespace Search

/-- One round. The index moves on whether or not its name is free, which the last one cannot. -/
def round (reserved : List String) : Search → Search
  | trying index =>
    if 2 ^ 32 ≤ index.toNat + 1 then overflow
    else if tempName index.toNat ∈ reserved then trying (index + 1)
    else found (tempName index.toNat) (index + 1)
  | found name next => found name next
  | overflow => overflow

/-- The search from an index on after some rounds, however many. -/
def after (reserved : List String) (start : UInt32) (rounds : Nat) : Search :=
  (round reserved)^[rounds] (trying start)

/-- The search is over after exactly `rounds` rounds, with a name and the index behind it. -/
structure Ends (reserved : List String) (start : UInt32) (rounds : Nat) (name : String)
    (next : UInt32) : Prop where
  searches : ∀ k < rounds, ∃ index, after reserved start k = trying index
  ended : ∀ k, rounds ≤ k → after reserved start k = found name next

variable {reserved : List String} {index : Nat}

lemma after_succ (reserved : List String) (start : UInt32) (rounds : Nat) :
    after reserved start (rounds + 1) = round reserved (after reserved start rounds) :=
  Function.iterate_succ_apply' (round reserved) rounds (trying start)

lemma round_of_mem (fits : index + 1 < 2 ^ 32) (taken : tempName index ∈ reserved) :
    round reserved (trying (.ofNat index)) = trying (.ofNat (index + 1)) := by
  rw [round, UInt32.toNat_ofNat_of_lt' (Nat.lt_of_succ_lt fits), if_neg fits.not_ge, if_pos taken,
    UInt32.ofNat_add]
  rfl

lemma round_of_notMem (fits : index + 1 < 2 ^ 32) (free : tempName index ∉ reserved) :
    round reserved (trying (.ofNat index)) = found (tempName index) (.ofNat (index + 1)) := by
  rw [round, UInt32.toNat_ofNat_of_lt' (Nat.lt_of_succ_lt fits), if_neg fits.not_ge, if_neg free,
    UInt32.ofNat_add]
  rfl

variable {rounds : Nat}

/-- As long as all names were reserved, the search has moved by one index in each round. -/
lemma after_of_passed (fits : index + rounds < 2 ^ 32)
    (passed : ∀ j, index ≤ j → j < index + rounds → tempName j ∈ reserved) :
    after reserved (.ofNat index) rounds = trying (.ofNat (index + rounds)) := by
  induction rounds with
  | zero => rfl
  | succ rounds ih =>
    have before := ih (by omega) fun j low high => passed j low (by omega)
    rw [after_succ, before, round_of_mem (by omega) (passed _ (by omega) (by omega)), Nat.add_assoc]

/-- A search that is over stays so. -/
lemma after_of_found {start : UInt32} {name : String} {next : UInt32}
    (isOver : after reserved start rounds = found name next) (more : Nat) :
    after reserved start (rounds + more) = found name next := by
  induction more with
  | zero => exact isOver
  | succ more ih => rw [← Nat.add_assoc, after_succ, ih, round]

/-- A free name is found in the round after those for the names before it. -/
lemma ends_of_free (fits : index + rounds + 1 < 2 ^ 32)
    (passed : ∀ j, index ≤ j → j < index + rounds → tempName j ∈ reserved)
    (free : tempName (index + rounds) ∉ reserved) :
    Ends reserved (.ofNat index) (rounds + 1) (tempName (index + rounds))
      (.ofNat (index + rounds + 1)) := by
  constructor
  · intro k early
    exact ⟨_, after_of_passed (by omega) fun j low high => passed j low (by omega)⟩
  · intro k late
    have last : after reserved (.ofNat index) (rounds + 1) =
        found (tempName (index + rounds)) (.ofNat (index + rounds + 1)) := by
      rw [after_succ, after_of_passed (Nat.lt_of_succ_lt fits) passed, round_of_notMem fits free]
    obtain ⟨more, rfl⟩ := Nat.exists_eq_add_of_le late
    exact after_of_found last more

end Search

/-- Minting ends with the first free name. If 32 bits hold one more than the next index and the
number of reserved names together, the search is over after at most one round more than there are
reserved names, whatever the registry; it found the name of the least index from the next one on
that is not reserved, and the registry is left at the index behind it, which 32 bits hold. -/
theorem minting_ends_with_first_free_name (r : TempRegistry) (reserved : List String)
    (fits : r.next + reserved.toFinset.card + 1 < 2 ^ 32) :
    ∃ i rounds, IsLeast {i | r.next ≤ i ∧ tempName i ∉ reserved} i ∧ i + 1 < 2 ^ 32 ∧
      rounds ≤ reserved.toFinset.card + 1 ∧
      Search.Ends reserved (.ofNat r.next) rounds (tempName i) (.ofNat (i + 1)) ∧
      mint reserved r.next = (tempName i, i + 1) ∧
      r.claim reserved = (tempName i, { r with next := i + 1 }) := by
  obtain ⟨i, minted, low, _, passed, free⟩ := mint_eq reserved r.next
  obtain ⟨rounds, rfl⟩ := Nat.exists_eq_add_of_le low
  have few := passed_le_card passed
  refine ⟨_, rounds + 1, ⟨⟨low, free⟩, ?_⟩, by omega, by omega, ?_, minted, ?_⟩
  · intro j other
    by_contra early
    exact other.2 (passed j other.1 (by omega))
  · exact Search.ends_of_free (by omega) passed free
  · simp only [claim, minted]

/-- The last letter and the first number are reserved, so the third round finds the second
number. -/
theorem minting_ends_after_letters :
    Search.after ["_z", "x", "_0"] (.ofNat 25) 3 = .found "_1" 28 ∧
      ∃ i rounds, IsLeast {i | 25 ≤ i ∧ tempName i ∉ ["_z", "x", "_0"]} i ∧ i + 1 < 2 ^ 32 ∧
        rounds ≤ ["_z", "x", "_0"].toFinset.card + 1 ∧
        Search.Ends ["_z", "x", "_0"] (.ofNat 25) rounds (tempName i) (.ofNat (i + 1)) ∧
        mint ["_z", "x", "_0"] 25 = (tempName i, i + 1) ∧
        claim ["_z", "x", "_0"] ⟨25, []⟩ = (tempName i, ⟨i + 1, []⟩) :=
  ⟨by decide, minting_ends_with_first_free_name ⟨25, []⟩ ["_z", "x", "_0"] (by decide)⟩

/-- The last index has a free name and no index behind it. -/
theorem minting_overflows_at_last_index :
    let r : TempRegistry := ⟨2 ^ 32 - 1, []⟩
    r.next + ([] : List String).toFinset.card < 2 ^ 32 ∧
      ∀ rounds, Search.after [] (.ofNat r.next) (rounds + 1) = .overflow := by
  refine ⟨by decide, fun rounds => ?_⟩
  induction rounds with
  | zero => rfl
  | succ rounds ih => rw [Search.after_succ, ih, Search.round]

end PatternLowering.TempRegistry

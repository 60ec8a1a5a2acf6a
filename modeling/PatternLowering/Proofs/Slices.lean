import PatternLowering.Proofs.Scanning

/-!
# Slices

Two boundaries cut a text into three pieces, and the slice between them is the middle one. So slices
that follow one another make up the slice from the first boundary to the last.
-/

namespace PatternLowering

open List

namespace Text

variable {text rest : Text} {a b c : Nat}

lemma isBoundary_iff : text.isBoundary a ↔ ∃ taken rest, text = taken ++ rest ∧ taken.size = a := by
  rw [isBoundary, Option.isSome_iff_exists]
  constructor
  · rintro ⟨rest, dropped⟩
    obtain ⟨taken, whole, size⟩ := drop?_eq_some.mp dropped
    exact ⟨taken, rest, whole, size⟩
  · rintro ⟨taken, rest, whole, size⟩
    exact ⟨rest, drop?_eq_some.mpr ⟨taken, whole, size⟩⟩

lemma size_blanks (n : Nat) : size (List.replicate n ' ') = n := by
  induction n with
  | zero => rfl
  | succ n ih =>
    rw [replicate_succ, size_cons, ih, Nat.add_comm]
    rfl

lemma isBoundary_zero (text : Text) : text.isBoundary 0 :=
  isBoundary_iff.mpr ⟨[], text, rfl, rfl⟩

lemma isBoundary_size (text : Text) : text.isBoundary text.size :=
  isBoundary_iff.mpr ⟨text, [], by simp, rfl⟩

lemma le_size_of_isBoundary (boundary : text.isBoundary a) : a ≤ text.size := by
  obtain ⟨taken, rest, rfl, rfl⟩ := isBoundary_iff.mp boundary
  rw [size_append]
  omega

lemma size_eq_zero : text.size = 0 ↔ text = [] := by
  constructor
  · intro none
    cases text with
    | nil => rfl
    | cons x later =>
      have wide := x.utf8Size_pos
      rw [size_cons] at none
      omega
  · rintro rfl
    rfl

/-- A text has one beginning of each size. -/
lemma append_inj_of_size {taken taken' rest' : Text} (same : taken ++ rest = taken' ++ rest')
    (size : taken.size = taken'.size) : taken = taken' ∧ rest = rest' := by
  rcases append_eq_append_iff.mp same with ⟨more, longer, split⟩ | ⟨more, longer, split⟩ <;>
    rw [longer, size_append] at size <;>
    obtain rfl := size_eq_zero.mp (show Text.size more = 0 by omega)
  · exact ⟨by simpa using longer.symm, by simpa using split⟩
  · exact ⟨by simpa using longer, by simpa using split.symm⟩

/-- Two boundaries cut a text into three pieces. -/
lemma exists_pieces (first : text.isBoundary a) (second : text.isBoundary b) (forward : a ≤ b) :
    ∃ before between after, text = before ++ between ++ after ∧ before.size = a ∧
      a + between.size = b := by
  obtain ⟨taken, rest, rfl, rfl⟩ := isBoundary_iff.mp first
  obtain ⟨taken', rest', whole, rfl⟩ := isBoundary_iff.mp second
  rcases append_eq_append_iff.mp whole with ⟨more, longer, split⟩ | ⟨more, longer, split⟩
  · refine ⟨taken, more, rest', ?_, rfl, ?_⟩
    · rw [split, append_assoc]
    · rw [longer, size_append]
  · rw [longer, size_append] at forward
    obtain rfl := size_eq_zero.mp (show Text.size more = 0 by omega)
    exact ⟨taken, [], rest, by simp, rfl, by rw [longer]; simp⟩

lemma take?_append (taken rest : Text) : take? taken.size (taken ++ rest) = some taken := by
  induction taken with
  | nil => cases rest <;> rfl
  | cons x later ih =>
    obtain ⟨width, isSucc⟩ : ∃ width, x.utf8Size + size later = width + 1 :=
      ⟨x.utf8Size + size later - 1, by have := x.utf8Size_pos; omega⟩
    have left : width + 1 - x.utf8Size = size later := by omega
    rw [cons_append, size_cons, isSucc, take?, if_pos (by omega), left, ih]
    rfl

/-- The slice between two boundaries is what stands there. -/
lemma slice_pieces (before between after : Text) :
    slice (before ++ between ++ after) before.size (before.size + between.size) = between := by
  have width : before.size + between.size - before.size = between.size := by omega
  rw [slice, slice?, if_pos (by omega), append_assoc, drop?_append, Option.bind_some, width,
    take?_append]
  rfl

lemma slice_self (a : Nat) : text.slice a a = [] := by
  rw [slice, slice?, if_pos (by omega), Nat.sub_self]
  cases text.drop? a with
  | none => rfl
  | some rest => cases rest <;> rfl

lemma slice_all (text : Text) : text.slice 0 text.size = text := by
  simpa using slice_pieces [] text []

lemma slice_blanks {n k : Nat} (few : k ≤ n) :
    slice (List.replicate n ' ') 0 k = List.replicate k ' ' := by
  obtain ⟨more, rfl⟩ := Nat.exists_eq_add_of_le few
  have cut := slice_pieces [] (List.replicate k ' ') (List.replicate more ' ')
  rwa [nil_append, replicate_append_replicate, size_nil, Nat.zero_add, size_blanks] at cut

lemma slice_append (first : text.isBoundary a) (second : text.isBoundary b)
    (third : text.isBoundary c) (forward : a ≤ b) (onward : b ≤ c) :
    text.slice a b ++ text.slice b c = text.slice a c := by
  obtain ⟨before, between, after, rfl, rfl, rfl⟩ := exists_pieces first second forward
  obtain ⟨before', later, rest, whole, size, rfl⟩ := exists_pieces second third onward
  rw [append_assoc before'] at whole
  obtain ⟨rfl, rfl⟩ := append_inj_of_size whole (by rw [size_append, size])
  have left := slice_pieces before between (later ++ rest)
  have right := slice_pieces (before ++ between) later rest
  have both := slice_pieces before (between ++ later) rest
  rw [← append_assoc, size_append, ← Nat.add_assoc] at both
  rw [size_append, append_assoc _ later] at right
  rw [left, right, ← append_assoc, both]

lemma slice_char (taken : Text) (x : Char) (rest : Text) :
    slice (taken ++ x :: rest) taken.size (taken.size + x.utf8Size) = [x] := by
  simpa using slice_pieces taken [x] rest

/-- The boundary that follows another one lies behind the character there. -/
lemma add_utf8Size_le {taken : Text} {x : Char} (boundary : (taken ++ x :: rest).isBoundary a)
    (behind : taken.size < a) : taken.size + x.utf8Size ≤ a := by
  obtain ⟨taken', rest', whole, rfl⟩ := isBoundary_iff.mp boundary
  rcases append_eq_append_iff.mp whole with ⟨more, longer, split⟩ | ⟨more, longer, _⟩
  · cases more with
    | nil => simp [longer] at behind
    | cons y more =>
      cases split
      rw [longer, size_append, size_cons]
      omega
  · rw [longer, size_append] at behind
    omega

end Text

end PatternLowering

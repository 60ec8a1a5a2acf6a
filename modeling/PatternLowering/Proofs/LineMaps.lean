import Mathlib.Data.Prod.Lex
import PatternLowering.Proofs.DiagnosticRanges

/-!
# Line maps

A line map counts the line breaks that are over at an offset, and its columns start at the end of
the last of them. Whatever a search in its table answers leads to the same line, all numbers fit in
32 bits, and positions grow with the offset.
-/

namespace PatternLowering

open List

/-- The line breaks that are over at an offset, each given by the place where it ends. -/
def Text.breaksUpTo (text : Text) (offset : Nat) : Set Nat := {k | k ≤ offset ∧ text.EndsBreak k}

namespace Text

variable {text : Text} {offset later k : Nat}

lemma EndsBreak.pos (ends : text.EndsBreak k) : 0 < k := by
  obtain ⟨before, rest, -, rfl, last⟩ := ends
  rcases eq_nil_or_concat' before with rfl | ⟨start, c, rfl⟩
  · simp at last
  · have wide := c.utf8Size_pos
    simp only [size_append, size_cons, size_nil]
    omega

lemma EndsBreak.le_size (ends : text.EndsBreak k) : k ≤ text.size := by
  obtain ⟨before, rest, rfl, rfl, -⟩ := ends
  rw [size_append]
  omega

lemma finite_breaksUpTo (text : Text) (offset : Nat) : (text.breaksUpTo offset).Finite :=
  (Set.finite_Iic offset).subset fun _ past => past.1

lemma breaksUpTo_mono (le : offset ≤ later) : text.breaksUpTo offset ⊆ text.breaksUpTo later :=
  fun _ past => ⟨past.1.trans le, past.2⟩

/-- Every break takes a byte of its own. -/
lemma ncard_breaksUpTo_le (text : Text) (offset : Nat) :
    (text.breaksUpTo offset).ncard ≤ offset := by
  have inside : text.breaksUpTo offset ⊆ (Finset.Icc 1 offset : Set Nat) := fun k past => by
    simpa using ⟨past.2.pos, past.1⟩
  calc (text.breaksUpTo offset).ncard
      ≤ (Finset.Icc 1 offset : Set Nat).ncard := Set.ncard_le_ncard inside (Finset.finite_toSet _)
    _ = offset := by simp

end Text

/-- Positions are compared by their lines first. -/
def Position.key (p : Position) : Nat ×ₗ Nat := toLex (p.line, p.column)

namespace LineMap

variable {text : Text} {offset : Nat}

/-! ### Searching the table -/

/-- What a search for a number in a sorted table may answer: a place where it stands, or the place
at which it would have to be put in. -/
inductive Answers (starts : List Nat) (offset : Nat) : Except Nat Nat → Prop
  | found {i : Nat} (here : starts[i]? = some offset) : Answers starts offset (.ok i)
  | absent {i : Nat} (inside : i ≤ starts.length) (below : ∀ k ∈ starts.take i, k < offset)
      (above : ∀ k ∈ starts.drop i, offset < k) : Answers starts offset (.error i)

/-- The line that an answer stands for, counted from zero. -/
def lineIndex : Except Nat Nat → Nat
  | .ok i => i
  | .error i => i - 1

lemma starts_sorted (text : Text) : (ofText text).starts.Pairwise (· < ·) := by
  obtain ⟨sorted, positive⟩ := breakEnds_sorted 0 text
  exact pairwise_cons.mpr ⟨positive, sorted⟩

/-- A table that is cut where the offset is passed has the lines up to the offset before the cut. -/
lemma takeWhile_eq_take {starts : List Nat} {n : Nat} (below : ∀ k ∈ starts.take n, k ≤ offset)
    (above : ∀ k ∈ starts.drop n, offset < k) : starts.takeWhile (· ≤ offset) = starts.take n := by
  have ahead : (starts.drop n).takeWhile (· ≤ offset) = [] := by
    cases rest : starts.drop n with
    | nil => rfl
    | cons k later =>
      have passed := above k (by simp [rest])
      exact takeWhile_cons_of_neg (by simpa using passed)
  calc starts.takeWhile (· ≤ offset)
      = (starts.take n ++ starts.drop n).takeWhile (· ≤ offset) := by rw [take_append_drop]
    _ = starts.take n := by
      rw [takeWhile_append_of_pos (fun k mem => by simpa using below k mem), ahead, append_nil]

/-- Every answer cuts the table behind the line that holds the offset. -/
lemma Answers.upTo_eq {answer : Except Nat Nat}
    (answers : Answers (ofText text).starts offset answer) :
    lineIndex answer < (ofText text).starts.length ∧
      (ofText text).upTo offset = (ofText text).starts.take (lineIndex answer + 1) := by
  have sorted := starts_sorted text
  cases answers with
  | @found i here =>
    obtain ⟨inside, same⟩ := List.getElem?_eq_some_iff.mp here
    have cut :
        (ofText text).starts = (ofText text).starts.take i ++ offset :: (ofText text).starts.drop
          (i + 1) := by
      rw [← same, cons_getElem_drop_succ, take_append_drop]
    rw [cut, pairwise_append, pairwise_cons] at sorted
    refine ⟨inside, takeWhile_eq_take (fun k mem => ?_) sorted.2.1.1⟩
    rw [lineIndex, take_add_one, here] at mem
    rcases mem_append.mp mem with before | last
    · exact (sorted.2.2 k before offset (by simp)).le
    · exact (mem_singleton.mp last).le
  | @absent i inside below above =>
    have first : 0 < i := Nat.pos_of_ne_zero fun none => by
      subst none
      exact absurd (above 0 (by simp [ofText])) (Nat.not_lt_zero offset)
    have index : lineIndex (.error i) + 1 = i := Nat.sub_add_cancel first
    refine ⟨by omega, ?_⟩
    rw [index]
    exact takeWhile_eq_take (fun k mem => (below k mem).le) above

lemma exists_cut {starts : List Nat} (sorted : starts.Pairwise (· < ·)) (offset : Nat) :
    ∃ i ≤ starts.length, (∀ k ∈ starts.take i, k ≤ offset) ∧ ∀ k ∈ starts.drop i, offset < k := by
  induction starts with
  | nil => exact ⟨0, by simp⟩
  | cons start later ih =>
    obtain ⟨above, sorted⟩ := pairwise_cons.mp sorted
    by_cases before : start ≤ offset
    · obtain ⟨i, inside, below, behind⟩ := ih sorted
      exact ⟨i + 1, by simpa using inside, by simpa using ⟨before, below⟩, by simpa using behind⟩
    · refine ⟨0, by simp, by simp, fun k mem => ?_⟩
      rcases mem_cons.mp mem with rfl | mem
      · omega
      · have := above k mem
        omega

lemma exists_answer (text : Text) (offset : Nat) :
    ∃ answer, Answers (ofText text).starts offset answer := by
  by_cases mem : offset ∈ (ofText text).starts
  · obtain ⟨i, here⟩ := mem_iff_getElem?.mp mem
    exact ⟨_, .found here⟩
  · obtain ⟨i, inside, below, above⟩ := exists_cut (starts_sorted text) offset
    refine ⟨_, .absent inside (fun k taken => ?_) above⟩
    exact lt_of_le_of_ne (below k taken) fun same => mem (same ▸ mem_of_mem_take taken)

/-! ### Lines and columns -/

lemma upTo_ofText (text : Text) (offset : Nat) :
    (ofText text).upTo offset = 0 :: (breakEnds 0 text).filter (· ≤ offset) := by
  rw [upTo, takeWhile_eq_filter (starts_sorted text)]
  exact filter_cons_of_pos (by simp)

lemma mem_upTo {k : Nat} :
    k ∈ (ofText text).upTo offset ↔ k ∈ insert 0 (text.breaksUpTo offset) := by
  simp [upTo_ofText, mem_breakEnds, Text.breaksUpTo, and_comm]

/-- A line starts at the end of the last break before it, and the first line at zero. -/
lemma isGreatest_lineStart (text : Text) (offset : Nat) :
    IsGreatest (insert 0 (text.breaksUpTo offset)) ((ofText text).lineStart offset) := by
  have some : (ofText text).upTo offset ≠ [] := by simp [upTo_ofText]
  have last : (ofText text).lineStart offset = ((ofText text).upTo offset).getLast some := by
    rw [lineStart, getLastD_eq_getLast?, getLast?_eq_some_getLast some, Option.getD_some]
  have sorted : ((ofText text).upTo offset).Pairwise (· < ·) :=
    (starts_sorted text).sublist (takeWhile_sublist _)
  rw [last]
  refine ⟨mem_upTo.mp (getLast_mem some), fun k mem => ?_⟩
  have mem' := mem_upTo.mpr mem
  rw [← dropLast_append_getLast some] at mem' sorted
  rcases mem_append.mp mem' with before | same
  · exact ((pairwise_append.mp sorted).2.2 k before _ (by simp)).le
  · exact (mem_singleton.mp same).le

lemma lineStart_le (text : Text) (offset : Nat) : (ofText text).lineStart offset ≤ offset := by
  rcases (isGreatest_lineStart text offset).1 with zero | past
  · omega
  · exact past.1

/-- The table holds the start of the line to which an answer leads. -/
lemma Answers.tells {answer : Except Nat Nat}
    (answers : Answers (ofText text).starts offset answer) :
    (ofText text).lineOf offset = lineIndex answer + 1 ∧
      (ofText text).starts[lineIndex answer]? = some ((ofText text).lineStart offset) := by
  obtain ⟨inside, upTo⟩ := answers.upTo_eq
  constructor
  · rw [lineOf, upTo, length_take]
    omega
  · rw [lineStart, upTo, take_add_one, getElem?_eq_getElem inside, Option.toList_some,
      getLastD_concat]

/-- Two offsets that are in one line have the same breaks behind them. -/
lemma breaksUpTo_eq_of_lineOf_eq {later : Nat} (le : offset ≤ later)
    (same : (ofText text).lineOf offset = (ofText text).lineOf later) :
    text.breaksUpTo offset = text.breaksUpTo later := by
  rw [lineOf_eq, lineOf_eq] at same
  refine Set.eq_of_subset_of_ncard_le (Text.breaksUpTo_mono le) ?_ (text.finite_breaksUpTo later)
  exact (Nat.add_left_cancel same).ge

lemma lineOf_mono (text : Text) : Monotone (ofText text).lineOf := fun offset later le => by
  rw [lineOf_eq, lineOf_eq]
  exact Nat.add_le_add_left
    (Set.ncard_le_ncard (Text.breaksUpTo_mono le) (text.finite_breaksUpTo later)) 1

/-- What the map of a text tells about an offset. -/
structure Tells (text : Text) (offset : Nat) : Prop where
  line : (ofText text).lineOf offset = 1 + (text.breaksUpTo offset).ncard
  start : IsGreatest (insert 0 (text.breaksUpTo offset)) ((ofText text).lineStart offset)
  position : (ofText text).position offset =
    ⟨(ofText text).lineOf offset, offset - (ofText text).lineStart offset + 1⟩
  fits : (ofText text).lineOf offset < 2 ^ 32 ∧ offset - (ofText text).lineStart offset + 1 < 2 ^ 32
  searched : (∃ answer, Answers (ofText text).starts offset answer) ∧
    ∀ answer, Answers (ofText text).starts offset answer →
      (ofText text).lineOf offset = lineIndex answer + 1 ∧
        (ofText text).starts[lineIndex answer]? = some ((ofText text).lineStart offset)

lemma tells (text : Text) (small : offset < 2 ^ 32 - 1) : Tells text offset where
  line := lineOf_eq text offset
  start := isGreatest_lineStart text offset
  position := by
    have narrow : offset - (ofText text).lineStart offset + 1 < columnBound := by
      unfold columnBound
      omega
    rw [LineMap.position, Nat.mod_eq_of_lt narrow]
  fits := by
    have few := text.ncard_breaksUpTo_le offset
    have line : (ofText text).lineOf offset = 1 + (text.breaksUpTo offset).ncard :=
      lineOf_eq text offset
    omega
  searched := ⟨exists_answer text offset, fun _ answers => answers.tells⟩

/-- Behind a position come only greater ones: on a later line, or on the same line further right. -/
lemma position_key_strictMonoOn (text : Text) :
    StrictMonoOn (fun offset => ((ofText text).position offset).key)
      {offset | offset < 2 ^ 32 - 1} := by
  intro offset small later small' lt
  simp only [(tells text small).position, (tells text small').position, Position.key]
  rw [Prod.Lex.toLex_lt_toLex]
  rcases (lineOf_mono text lt.le).lt_or_eq with before | same
  · exact .inl before
  · have start : (ofText text).lineStart offset = (ofText text).lineStart later := by
      refine (isGreatest_lineStart text offset).unique ?_
      rw [breaksUpTo_eq_of_lineOf_eq lt.le same]
      exact isGreatest_lineStart text later
    have begins := lineStart_le text offset
    exact .inr ⟨same, by dsimp only; omega⟩

/-- The table holds zero and the ends of all breaks, in order. -/
structure IsTable (text : Text) (starts : List Nat) : Prop where
  sorted : starts.Pairwise (· < ·)
  mem_iff : ∀ k, k ∈ starts ↔ k = 0 ∨ text.EndsBreak k
  fits : ∀ start ∈ starts, start < 2 ^ 32

lemma isTable_starts (short : text.size < 2 ^ 32) : IsTable text (ofText text).starts := by
  have mem_iff (k : Nat) : k ∈ (ofText text).starts ↔ k = 0 ∨ text.EndsBreak k := by
    simp [ofText, mem_breakEnds]
  refine ⟨starts_sorted text, mem_iff, fun start mem => ?_⟩
  rcases (mem_iff start).mp mem with rfl | ends
  · omega
  · exact ends.le_size.trans_lt short

/-- Line maps are exact. -/
theorem line_map_is_exact (text : Text) (short : text.size < 2 ^ 32) :
    IsTable text (ofText text).starts ∧
    (∀ offset < 2 ^ 32 - 1, Tells text offset) ∧
    StrictMonoOn (fun offset => ((ofText text).position offset).key)
      {offset | offset < 2 ^ 32 - 1} ∧
    Set.InjOn (ofText text).position {offset | offset < 2 ^ 32 - 1} := by
  have increasing := position_key_strictMonoOn text
  refine ⟨isTable_starts short, fun offset small => tells text small, increasing,
    fun a small b small' same => ?_⟩
  exact increasing.injOn small small' (congrArg Position.key same)

/-- Three kinds of line breaks, an offset between the two characters of one of them, and one past
the end. -/
theorem mixed_breaks_are_mapped_exactly :
    Text.size "é\n\r\nb\rc".toList < 2 ^ 32 ∧ Tells "é\n\r\nb\rc".toList 4 ∧
      Tells "é\n\r\nb\rc".toList 1000 ∧
      [4, 5, 1000].map (ofText "é\n\r\nb\rc".toList).position = [⟨2, 2⟩, ⟨3, 1⟩, ⟨4, 994⟩] := by
  have short : Text.size "é\n\r\nb\rc".toList < 2 ^ 32 := by decide
  obtain ⟨-, mapped, -⟩ := line_map_is_exact _ short
  exact ⟨short, mapped 4 (by decide), mapped 1000 (by decide), by decide⟩

end LineMap

end PatternLowering

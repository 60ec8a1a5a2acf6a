import PatternLowering.Proofs.LineMaps
import PatternLowering.Report

/-!
# Snippets

The snippet of a diagnostic shows the line on which the line map places its start, and marks below
it the characters of that line that the diagnostic is about. An offset can also lie between the two
characters of a line break; then the whole line stands before it.
-/

namespace PatternLowering

open List

/-- The characters of a text, each with the offset at which it starts. -/
def Text.spots (offset : Nat) : Text → List (Nat × Char)
  | [] => []
  | c :: rest => (offset, c) :: spots (offset + c.utf8Size) rest

lemma Text.le_of_mem_spots {offset : Nat} {text : Text} {spot : Nat × Char}
    (mem : spot ∈ text.spots offset) : offset ≤ spot.1 := by
  induction text generalizing offset with
  | nil => cases mem
  | cons c rest ih =>
    rcases mem_cons.mp mem with rfl | mem
    · exact le_rfl
    · have := ih mem
      omega

/-! ### Lines -/

namespace LineMap

/-- The map places the offset on a line of the text, which has something before and after it. -/
structure PlacesOn (text : Text) (offset : Nat) (before line after : Text) : Prop where
  whole : text = before ++ line ++ after
  start : before.size = (ofText text).lineStart offset
  unbroken : ∀ c ∈ line, c ≠ '\n' ∧ c ≠ '\r'
  stop : ∀ c ∈ after.head?, c = '\n' ∨ c = '\r'
  reach : offset ≤ before.size + line.size ∨
    offset = before.size + line.size + 1 ∧ ['\r', '\n'] <+: after

variable {text : Text} {offset : Nat}

lemma isBoundary_lineStart (text : Text) (offset : Nat) :
    text.isBoundary ((ofText text).lineStart offset) := by
  rcases (isGreatest_lineStart text offset).1 with zero | ⟨-, before, rest, whole, size, -⟩
  · rw [zero]
    exact text.isBoundary_zero
  · exact Text.isBoundary_iff.mpr ⟨before, rest, whole, size⟩

/-- Behind the text of its line an offset can only be inside of the break. -/
lemma le_or_inside_break {before line after : Text}
    (start : before.size = (ofText text).lineStart offset) (whole : text = before ++ line ++ after)
    (stop : ∀ c ∈ after.head?, c = '\n' ∨ c = '\r') (inside : offset ≤ text.size) :
    offset ≤ before.size + line.size ∨ offset = before.size + line.size + 1 ∧
      ['\r', '\n'] <+: after := by
  by_cases reaches : offset ≤ before.size + line.size
  · exact .inl reaches
  -- No break ends between the start of the line and the offset.
  have unended {k : Nat} (ends : text.EndsBreak k) (behind : before.size + line.size < k) :
      offset < k := by
    by_contra passed
    have := (isGreatest_lineStart text offset).2 (.inr ⟨by omega, ends⟩)
    omega
  cases after with
  | nil =>
    simp only [whole, append_nil, Text.size_append] at inside
    omega
  | cons c rest =>
    have feed : ('\n').utf8Size = 1 := rfl
    have carriage : ('\r').utf8Size = 1 := rfl
    have size : Text.size (before ++ line ++ [c]) = before.size + line.size + 1 := by
      rcases stop c rfl with rfl | rfl <;> simp [feed, carriage, Nat.add_assoc]
    have cut : text = before ++ line ++ [c] ++ rest := by simp [whole]
    by_cases split : c = '\r' ∧ rest.head? = some '\n'
    · obtain ⟨rfl, next⟩ := split
      obtain ⟨rest, rfl⟩ := head?_eq_some_iff.mp next
      have ends : text.EndsBreak (before.size + line.size + 2) :=
        ⟨before ++ line ++ ['\r', '\n'], rest, by simp [whole],
          by simp [feed, carriage, Nat.add_assoc], .inl (by simp)⟩
      have := unended ends (by omega)
      exact .inr ⟨by omega, by simp⟩
    · have last : c = '\n' ∨ c = '\r' ∧ rest.head? ≠ some '\n' := by
        rcases stop c rfl with isFeed | isCarriage
        · exact .inl isFeed
        · exact .inr ⟨isCarriage, fun next => split ⟨isCarriage, next⟩⟩
      have ends : text.EndsBreak (before.size + line.size + 1) :=
        ⟨before ++ line ++ [c], rest, cut, size, by simpa using last⟩
      have := unended ends (by omega)
      omega

end LineMap

namespace Report

open LineMap

lemma exists_line {text : Text} {offset : Nat} (inside : offset ≤ text.size) :
    ∃ before line after, lineFrom? text ((ofText text).lineStart offset) = some line ∧
      PlacesOn text offset before line after := by
  obtain ⟨before, rest, whole, size⟩ := Text.isBoundary_iff.mp (isBoundary_lineStart text offset)
  let inLine : Char → Bool := fun c => c != '\n' && c != '\r'
  have cut : text = before ++ rest.takeWhile inLine ++ rest.dropWhile inLine := by
    rw [append_assoc, takeWhile_append_dropWhile, ← whole]
  have stop : ∀ c ∈ (rest.dropWhile inLine).head?, c = '\n' ∨ c = '\r' := fun c first => by
    have outside := head?_dropWhile_not inLine rest
    rw [Option.mem_def.mp first] at outside
    simpa [inLine, or_iff_not_imp_left] using outside
  refine ⟨before, rest.takeWhile inLine, rest.dropWhile inLine, ?_, cut, size,
    fun c mem => ?_, stop, le_or_inside_break size cut stop inside⟩
  · rw [lineFrom?, Text.drop?_eq_some.mpr ⟨before, whole, size⟩]
    rfl
  · simpa [inLine] using mem_takeWhile_imp mem

/-! ### Marks -/

/-- What stands below a character in front of a stretch. -/
def filler (c : Char) : Char := if c = '\t' then '\t' else ' '

lemma filler_ne (c : Char) : filler c ≠ '~' := by
  unfold filler
  split <;> decide

/-- What stands below a line that starts at `lineStart`: a blank for each character before `start`,
then a tilde for each character of the stretch, or a single one. -/
def underlined (lineStart start length : Nat) (line : Text) : Text :=
  ((line.spots lineStart).filter (·.1 < start)).map (fun spot => filler spot.2) ++
    List.replicate (max 1 ((line.spots lineStart).countP fun spot => start ≤ spot.1 ∧
      spot.1 < start + length)) '~'

/-- Marks are set up to the first character behind the stretch; all others are behind it too. -/
lemma marks_eq {lineStart start : Nat} (le : lineStart ≤ start) (length offset : Nat)
    (line : Text) : marks (start - lineStart) length offset line =
      ((line.spots (lineStart + offset)).filter (·.1 < start)).map (fun spot => filler spot.2) ++
        List.replicate ((line.spots (lineStart + offset)).countP
          fun spot => start ≤ spot.1 ∧ spot.1 < start + length) '~' := by
  induction line generalizing offset with
  | nil => rfl
  | cons c rest ih =>
    have later (spot) (mem : spot ∈ Text.spots (lineStart + (offset + c.utf8Size)) rest) :
        lineStart + offset ≤ spot.1 := by
      have := Text.le_of_mem_spots mem
      omega
    rw [marks, Text.spots, Nat.add_assoc]
    by_cases front : lineStart + offset < start
    · rw [if_pos (by omega), ih, filter_cons_of_pos (by simpa using front),
        countP_cons_of_neg (by simpa using fun le => by omega)]
      rfl
    · have none : (Text.spots (lineStart + (offset + c.utf8Size)) rest).filter (·.1 < start) = [] :=
        filter_eq_nil_iff.mpr fun spot mem => by
          have := later spot mem
          simpa using by omega
      rw [if_neg (by omega), filter_cons_of_neg (by simpa using front), none]
      by_cases inside : lineStart + offset < start + length
      · rw [if_pos (by omega), ih, none, countP_cons_of_pos (by simpa using by omega),
          replicate_succ]
        rfl
      · have beyond : (Text.spots (lineStart + (offset + c.utf8Size)) rest).countP
            (fun spot => start ≤ spot.1 ∧ spot.1 < start + length) = 0 :=
          countP_eq_zero.mpr fun spot mem => by
            have := later spot mem
            simpa using fun _ => by omega
        rw [if_neg (by omega), countP_cons_of_neg (by simpa using fun _ => by omega), beyond]
        rfl

lemma underline_eq {lineStart start : Nat} (le : lineStart ≤ start) (length : Nat) (line : Text) :
    underline (start - lineStart) length line = underlined lineStart start length line := by
  have plain (spots : List (Nat × Char)) : '~' ∉ spots.map fun spot => filler spot.2 := by
    simp [filler_ne]
  rw [underline, underlined, marks_eq le, Nat.add_zero]
  generalize (line.spots lineStart).countP _ = count
  cases count with
  | zero => simp [plain]
  | succ count => simp [plain]

/-- The line and the marks below it start in the same column, up to line 999. -/
lemma rows_start_together_iff (n : Nat) :
    ("  " ++ lineNumber n ++ "   ").length = "        ".length ↔ n < 1000 := by
  have digits : n.repr.length ≤ 3 ↔ n < 10 ^ 3 := Nat.length_repr_le_iff (by omega)
  have number : (lineNumber n).length = max 3 n.repr.length := by
    simp [lineNumber]
    omega
  rw [String.length_append, String.length_append, number]
  change 2 + max 3 n.repr.length + 3 = 8 ↔ n < 1000
  omega

/-- A snippet shows the line of its start, with the characters of the stretch marked below it. The
marks stand right below these characters up to line 999; the numbers of later lines take more
room. -/
theorem snippet_is_aligned (report : Report) (plain : report.color = false) (file : String)
    (text : Text) (known : report.source? file = some text) (start length : Nat) (wide : 0 < length)
    (boundary : text.isBoundary start) :
    ∃ before line after, PlacesOn text start before line after ∧
      report.snippet? file start length =
        some ("\n  " ++ lineNumber ((ofText text).lineOf start) ++ "   " ++ String.ofList line ++
          "\n        " ++ String.ofList (underlined before.size start length line)) ∧
      (("  " ++ lineNumber ((ofText text).lineOf start) ++ "   ").length = "        ".length ↔
        (ofText text).lineOf start < 1000) := by
  obtain ⟨before, line, after, found, places⟩ := exists_line (Text.le_size_of_isBoundary boundary)
  refine ⟨before, line, after, places, ?_, rows_start_together_iff _⟩
  have marks : report.paint .red (String.ofList (underline (start - before.size) length line)) =
      String.ofList (underlined before.size start length line) := by
    rw [paint, plain, underline_eq (places.start ▸ lineStart_le text start)]
    rfl
  have some : length ≠ 0 := by omega
  rw [← places.start] at found
  simp only [snippet?, some, known, ← places.start, found, marks, if_false, Option.bind_eq_bind,
    Option.bind_some, Option.pure_def]

/-- A stretch behind a tab and a letter of two bytes, which goes on into the next line. -/
theorem snippet_behind_tab_is_aligned :
    Report.source? ⟨false, [("a.js", "x\r\n\té = y\r\nz".toList)]⟩ "a.js" =
      some "x\r\n\té = y\r\nz".toList ∧
    Text.isBoundary "x\r\n\té = y\r\nz".toList 7 ∧
    ∃ before line after, PlacesOn "x\r\n\té = y\r\nz".toList 7 before line after ∧
      Report.snippet? ⟨false, [("a.js", "x\r\n\té = y\r\nz".toList)]⟩ "a.js" 7 40 =
        some ("\n  " ++ lineNumber ((ofText "x\r\n\té = y\r\nz".toList).lineOf 7) ++ "   " ++
          String.ofList line ++
          "\n        " ++ String.ofList (underlined before.size 7 40 line)) ∧
      (("  " ++ lineNumber ((ofText "x\r\n\té = y\r\nz".toList).lineOf 7) ++ "   ").length =
        "        ".length ↔ (ofText "x\r\n\té = y\r\nz".toList).lineOf 7 < 1000) :=
  ⟨rfl, by decide, snippet_is_aligned _ rfl "a.js" _ rfl 7 40 (by decide) (by decide)⟩

example : Report.snippet? ⟨false, [("a.js", "x\r\n\té = y\r\nz".toList)]⟩ "a.js" 7 40 =
    some "\n    2   \té = y\n        \t  ~~~" := by decide

-- A stretch that starts between the two characters of a line break.
example : Report.snippet? ⟨false, [("a.js", "x\r\ny".toList)]⟩ "a.js" 2 1 =
    some "\n    1   x\n         ~" := by decide

end Report

end PatternLowering

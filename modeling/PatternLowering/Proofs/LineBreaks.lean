import PatternLowering.Proofs.Tiling

/-!
# Line breaks between tokens

Every gap is a row of blanks and comments. A token has a line break before it if one of the blanks
is a line terminator or a closed block comment holds a line feed or a carriage return. The two
Unicode separators inside of a comment, and whatever a comment holds that does not end, pass unseen.
-/

namespace PatternLowering

open List

/-- A line terminator that ends no comment. -/
def isLineSeparator (c : Char) : Bool := c = '\u2028' || c = '\u2029'

lemma isLineTerminator_iff {c : Char} : isLineTerminator c ↔ isLineEnd c ∨ isLineSeparator c := by
  simp [isLineTerminator, isLineSeparator, or_assoc]

lemma any_isLineTerminator {text : Text} :
    text.any isLineTerminator ↔ text.any isLineEnd ∨ text.any isLineSeparator := by
  simp only [any_eq_true, isLineTerminator_iff, and_or_left, exists_or]

namespace Gap

/-- What gaps are made of. A line comment stops before the end of its line, which is a blank of its
own. -/
inductive Piece where
  | blank (c : Char)
  | lineComment (body : Text)
  | blockComment (body : Text)
  | openComment (body : Text)
deriving DecidableEq, Repr

namespace Piece

def text : Piece → Text
  | blank c => [c]
  | lineComment body => '/' :: '/' :: body
  | blockComment body => '/' :: '*' :: (body ++ ['*', '/'])
  | openComment body => '/' :: '*' :: body

/-- The piece can stand in a gap with `rest` behind it. Comments end at the first place where they
can; one that does not end is the last piece. -/
def StandsBefore : Piece → Text → Prop
  | blank c, _ => isLineTerminator c ∨ isSpacing c
  | lineComment body, rest => (∀ c ∈ body, ¬ isLineEnd c) ∧ ∀ c ∈ rest.head?, isLineEnd c
  | blockComment body, _ => ¬ ['*', '/'] <:+: body ++ ['*']
  | openComment body, rest => ¬ ['*', '/'] <:+: body ∧ rest = []

/-- The piece counts as a line break. -/
def breaksLine : Piece → Bool
  | blank c => isLineTerminator c
  | lineComment _ => false
  | blockComment body => body.any isLineEnd
  | openComment _ => false

/-- The piece holds a line terminator that is not looked for there. -/
def hidesBreak : Piece → Bool
  | blank _ => false
  | lineComment body => body.any isLineSeparator
  | blockComment body => body.any isLineSeparator
  | openComment body => body.any isLineTerminator

/-- Every line terminator of a piece counts or is hidden. -/
lemma any_text_iff {piece : Piece} {rest : Text} (stands : piece.StandsBefore rest) :
    piece.text.any isLineTerminator ↔ piece.breaksLine ∨ piece.hidesBreak := by
  have slash : isLineTerminator '/' = false := by decide
  have star : isLineTerminator '*' = false := by decide
  cases piece with
  | blank c => simp [text, breaksLine, hidesBreak]
  | lineComment body =>
    have noEnd : ¬ body.any isLineEnd := by simpa using stands.1
    have all : body.any isLineTerminator ↔ body.any isLineEnd ∨ body.any isLineSeparator :=
      any_isLineTerminator
    simp_all [text, breaksLine, hidesBreak]
  | blockComment body =>
    simp only [text, breaksLine, hidesBreak, any_cons, any_append, any_nil, slash, star,
      Bool.false_or, Bool.or_false]
    exact any_isLineTerminator
  | openComment body => simp [text, breaksLine, hidesBreak, slash, star]

end Piece

/-- The pieces make up the gap `taken`, with `rest` behind it. -/
def Divides : List Piece → (taken rest : Text) → Prop
  | [], taken, _ => taken = []
  | piece :: later, taken, rest =>
    ∃ taken', taken = piece.text ++ taken' ∧ piece.StandsBefore (taken' ++ rest) ∧
      Divides later taken' rest

end Gap

/-- What separates tokens can be divided. -/
lemma Separates.divides {taken rest : Text} (separates : Separates taken rest) :
    ∃ pieces, Gap.Divides pieces taken rest := by
  induction separates with
  | nothing rest => exact ⟨[], rfl⟩
  | blank isBlank _ ih =>
    obtain ⟨pieces, divides⟩ := ih
    exact ⟨.blank _ :: pieces, _, rfl, isBlank, divides⟩
  | @lineComment body taken rest e inLine ends _ ih =>
    obtain ⟨pieces, divides⟩ := ih
    have isBlank : isLineTerminator e := isLineTerminator_iff.mpr (.inl ends)
    exact ⟨.lineComment body :: .blank e :: pieces, e :: taken, rfl, ⟨inLine, by simpa using ends⟩,
      taken, rfl, .inl isBlank, divides⟩
  | @lastLine body inLine =>
    exact ⟨[.lineComment body], [], by simp [Gap.Piece.text], ⟨inLine, by simp⟩, rfl⟩
  | @blockComment body taken rest first _ ih =>
    obtain ⟨pieces, divides⟩ := ih
    exact ⟨.blockComment body :: pieces, taken, by simp [Gap.Piece.text], first, divides⟩
  | @openComment body unclosed =>
    exact ⟨[.openComment body], [], by simp [Gap.Piece.text], ⟨unclosed, rfl⟩, rfl⟩

namespace Gap

variable {seen : Bool} {offset : Nat} {rest : Text}

/-! ### The flag along the pieces -/

lemma skipFrom_blank {c : Char} (isBlank : isLineTerminator c ∨ isSpacing c) :
    skipFrom .spaces seen offset (c :: rest) =
      skipFrom .spaces (seen || isLineTerminator c) (offset + c.utf8Size) rest := by
  have noSlash : c ≠ '/' := by
    rintro rfl
    revert isBlank
    decide
  rw [skipFrom]
  · by_cases ends : isLineTerminator c
    · simp [ends]
    · simp [ends, isBlank.resolve_left ends]
  · exact fun _ same => absurd same noSlash
  · exact fun _ same => absurd same noSlash

/-- At the end of its line a line comment is over. -/
lemma skipFrom_line_over (ends : ∀ c ∈ rest.head?, isLineEnd c) :
    skipFrom .lineComment seen offset rest = skipFrom .spaces seen offset rest := by
  cases rest with
  | nil => simp [skipFrom, Inside.openComment]
  | cons c rest =>
    have ends : isLineEnd c := ends c rfl
    have isBlank : isLineTerminator c := isLineTerminator_iff.mpr (.inl ends)
    rw [skipFrom_blank (.inl isBlank), skipFrom, if_pos ends, isBlank, Bool.or_true]

variable {pieces : List Piece} {taken : Text} {body : Text}

lemma skipFrom_line (inLine : ∀ c ∈ body, ¬ isLineEnd c) :
    skipFrom .lineComment seen offset (body ++ rest) =
      skipFrom .lineComment seen (offset + body.size) rest := by
  induction body generalizing offset with
  | nil => rfl
  | cons c body ih =>
    rw [cons_append, skipFrom, if_neg (inLine c (by simp)),
      ih fun c mem => inLine c (by simp [mem]), Text.size_cons, Nat.add_assoc]

/-- Inside of a block comment only line ends count, once it is closed. -/
lemma skipFrom_block {start : Nat} {breaks : Bool} (first : ¬ ['*', '/'] <:+: body ++ ['*']) :
    skipFrom (.blockComment start breaks) seen offset (body ++ '*' :: '/' :: rest) =
      skipFrom .spaces (seen || (breaks || body.any isLineEnd))
        (offset + (body.size + 2)) rest := by
  induction body generalizing offset breaks with
  | nil =>
    rw [nil_append, skipFrom]
    simp
  | cons c body ih =>
    have goesOn : ∀ later, c = '*' → body ++ '*' :: '/' :: rest = '/' :: later → False := by
      rintro later rfl same
      cases body with
      | nil => simp at same
      | cons d body =>
        obtain ⟨rfl, _⟩ := List.cons.inj same
        exact first ⟨[], body ++ ['*'], by simp⟩
    have later : ¬ ['*', '/'] <:+: body ++ ['*'] :=
      fun inside => first (inside.trans (suffix_cons c _).isInfix)
    rw [cons_append, skipFrom, ih later]
    · simp [Bool.or_assoc, Nat.add_assoc]
    · exact goesOn

/-- A comment that does not end takes the whole text and breaks no line. -/
lemma skipFrom_open {start : Nat} {breaks : Bool} (unclosed : ¬ ['*', '/'] <:+: body) :
    (skipFrom (.blockComment start breaks) seen offset body).stop.rest = [] ∧
      (skipFrom (.blockComment start breaks) seen offset body).lineBreak = seen := by
  induction body generalizing offset breaks with
  | nil => exact ⟨rfl, rfl⟩
  | cons c body ih =>
    have goesOn : ∀ later, c = '*' → body = '/' :: later → False := by
      rintro later rfl rfl
      exact unclosed ⟨[], later, rfl⟩
    rw [skipFrom]
    · exact ih fun inside => unclosed (inside.trans (suffix_cons c _).isInfix)
    · exact goesOn

/-- The two gaps come to the same end, wherever they started. -/
def EndsLike (gap gap' : Gap) : Prop :=
  gap.stop.rest = gap'.stop.rest ∧ gap.lineBreak = gap'.lineBreak

lemma skipFrom_piece (seen : Bool) (offset : Nat) {piece : Piece}
    (stands : piece.StandsBefore rest) :
    ∃ offset', EndsLike (skipFrom .spaces seen offset (piece.text ++ rest))
      (skipFrom .spaces (seen || piece.breaksLine) offset' rest) := by
  cases piece with
  | blank c =>
    refine ⟨offset + c.utf8Size, ?_⟩
    rw [Piece.text, singleton_append, skipFrom_blank stands]
    exact ⟨rfl, rfl⟩
  | lineComment body =>
    refine ⟨offset + 2 + Text.size body, ?_⟩
    rw [Piece.text, cons_append, cons_append, skipFrom, skipFrom_line stands.1,
      skipFrom_line_over stands.2, Piece.breaksLine, Bool.or_false]
    exact ⟨rfl, rfl⟩
  | blockComment body =>
    refine ⟨offset + 2 + (Text.size body + 2), ?_⟩
    rw [Piece.text, cons_append, cons_append, append_assoc, cons_append, cons_append,
      nil_append, skipFrom, skipFrom_block stands, Bool.false_or, Piece.breaksLine]
    exact ⟨rfl, rfl⟩
  | openComment body =>
    obtain ⟨unclosed, rfl⟩ := stands
    have opened : skipFrom .spaces seen offset ('/' :: '*' :: body) =
        skipFrom (.blockComment offset false) seen (offset + 2) body := by rw [skipFrom]
    refine ⟨offset, ?_⟩
    rw [Piece.text, append_nil, opened, Piece.breaksLine, Bool.or_false]
    exact skipFrom_open unclosed

lemma skipFrom_pieces (seen : Bool) (offset : Nat) (divides : Divides pieces taken rest) :
    ∃ offset', EndsLike (skipFrom .spaces seen offset (taken ++ rest))
      (skipFrom .spaces (seen || pieces.any Piece.breaksLine) offset' rest) := by
  induction pieces generalizing taken seen offset with
  | nil =>
    cases divides
    rw [any_nil, Bool.or_false]
    exact ⟨offset, rfl, rfl⟩
  | cons piece later ih =>
    obtain ⟨taken, rfl, stands, divides⟩ := divides
    obtain ⟨mid, step⟩ := skipFrom_piece seen offset stands
    obtain ⟨last, steps⟩ := ih (seen || piece.breaksLine) mid divides
    rw [append_assoc, any_cons, ← Bool.or_assoc]
    exact ⟨last, step.1.trans steps.1, step.2.trans steps.2⟩

lemma stop_ne_of_shorter (inside : Inside) (seen : Bool) (offset : Nat) {text rest : Text}
    (shorter : text.length < rest.length) :
    (skipFrom inside seen offset text).stop.rest ≠ rest := by
  obtain ⟨taken, cut, _⟩ := reaches_skipFrom inside seen offset text
  intro same
  have whole :
      text.length = taken.length + rest.length := by simpa [same] using congrArg List.length cut
  omega

/-- Where nothing can be skipped the flag stays. -/
lemma lineBreak_of_stop {inside : Inside}
    (stays : (skipFrom inside seen offset rest).stop.rest = rest) :
    (skipFrom inside seen offset rest).lineBreak = seen := by
  revert stays
  fun_cases skipFrom inside seen offset rest with
  | case1 | case6 => exact fun _ => rfl
  | case2 | case3 | case4 | case5 | case7 | case8 | case9 | case10 =>
    exact fun stays => absurd stays (stop_ne_of_shorter _ _ _ (by simp))

/-- However the gap is divided, the flag is set if one of the pieces breaks the line. -/
lemma skip_lineBreak {c : Cursor} (whole : c.rest = taken ++ (skip c).stop.rest)
    (divides : Divides pieces taken (skip c).stop.rest) :
    (skip c).lineBreak = pieces.any Piece.breaksLine := by
  obtain ⟨offset, stops, flag⟩ := skipFrom_pieces false c.offset divides
  rw [← whole, Bool.false_or] at stops flag
  exact flag.trans (lineBreak_of_stop stops.symm)

lemma Divides.any_iff (divides : Divides pieces taken rest) :
    taken.any isLineTerminator ↔ pieces.any Piece.breaksLine ∨ pieces.any Piece.hidesBreak := by
  induction pieces generalizing taken with
  | nil =>
    cases divides
    simp
  | cons piece later ih =>
    obtain ⟨taken, rfl, stands, divides⟩ := divides
    have first := Piece.any_text_iff stands
    have rest := ih divides
    simp only [any_append, any_cons, Bool.or_eq_true] at first rest ⊢
    rw [first, rest, or_or_or_comm]

end Gap

/-- The text up to a later place, and what comes after it. -/
lemma Cursor.rest_eq_of_reaches {c c' : Cursor} (later : c.Reaches c') :
    c.rest = c.textUpTo c' ++ c'.rest := by
  obtain ⟨taken, rest, offset⟩ := later
  have width : c'.offset - c.offset = Text.size taken := by omega
  rw [Cursor.textUpTo, width, rest, Text.take?_append]
  rfl

namespace Scanner

variable {text : Text} {s : Scanner}

/-- What the flag of a token tells about the gap before it. -/
structure Tells (lineBreak : Bool) (gap : Text) (pieces : List Gap.Piece) : Prop where
  shown : lineBreak ↔ ∃ piece ∈ pieces, piece.breaksLine
  real : lineBreak → ∃ c ∈ gap, isLineTerminator c
  hidden : (∃ c ∈ gap, isLineTerminator c) → lineBreak ∨ ∃ piece ∈ pieces, piece.hidesBreak

/-- The gap between the two tokens has pieces, and they decide whether there is a line break before
the second. -/
def TellsBreaks (text : Text) (s next : Scanner) : Prop :=
  ∃ gap rest, text.slice? s.token.stop next.token.start = some gap ∧
    text.drop? next.token.start = some rest ∧ (∃ pieces, Gap.Divides pieces gap rest) ∧
    ∀ pieces, Gap.Divides pieces gap rest → Tells next.token.lineBreak gap pieces

lemma Placed.tellsBreaks (placed : s.Placed text) : s.TellsBreaks text s.scan := by
  have closing : s.closing.In text := placed.opening.of_reaches placed.closing
  obtain ⟨reaches, separates⟩ := Gap.skip_separates s.closing
  refine ⟨s.closing.textUpTo (Gap.skip s.closing).stop, (Gap.skip s.closing).stop.rest, ?_,
    closing.of_reaches reaches, separates.divides, fun pieces divides => ?_⟩
  · rw [placed.stop]
    exact Cursor.slice?_of_reaches closing reaches
  · have flag : s.scan.token.lineBreak = pieces.any Gap.Piece.breaksLine :=
      Gap.skip_lineBreak (Cursor.rest_eq_of_reaches reaches) divides
    have breaks := divides.any_iff
    rw [← flag, any_eq_true, any_eq_true] at breaks
    exact ⟨by rw [flag, any_eq_true], fun lineBreak => breaks.mpr (.inl lineBreak), breaks.mp⟩

lemma Session.after_concat (text : Text) (steps : List Step) (step : Step) :
    Session.after text (steps ++ [step]) = (Session.after text steps).step step :=
  foldl_concat ..

lemma lineBreak_rescanSlash (s : Scanner) : s.rescanSlash.token.lineBreak = s.token.lineBreak := by
  unfold rescanSlash
  split <;> rfl

end Scanner

/-- Scanning from the start, and on from wherever a scanner has got, a token has a line break before
it just if one of the blanks and comments behind the token before it breaks the line. Then there is
a line terminator in the text between the two; and if there is one, the flag is set unless a comment
hides it. Reading a slash again leaves the flag as it is. -/
theorem line_break_flag_tells_shown_breaks (text : Text) :
    (∀ count, (Scanner.scanned text count).TellsBreaks text (Scanner.scanned text (count + 1))) ∧
      ∀ steps, (Scanner.Session.after text steps).current.TellsBreaks text
          (Scanner.Session.after text (steps ++ [.scan])).current ∧
        (Scanner.Session.after text (steps ++ [.rescanSlash])).current.token.lineBreak =
          (Scanner.Session.after text steps).current.token.lineBreak := by
  refine ⟨fun count => ?_, fun steps => ⟨?_, ?_⟩⟩
  · rw [Scanner.scanned_succ]
    exact (Scanner.placed_scanned text count).tellsBreaks
  · rw [Scanner.Session.after_concat]
    exact (Scanner.Session.placed_after text steps).1.tellsBreaks
  · rw [Scanner.Session.after_concat]
    exact Scanner.lineBreak_rescanSlash _

/-- A line separator in a comment. -/
def separatedInComment : Text := ['/', '*', '\u2028', '*', '/', 'a']

/-- The text before the token `a` holds a line terminator, but the token has no line break before
it. -/
theorem separator_in_comment_is_passed_over :
    separatedInComment.slice? 0 (Scanner.scanned separatedInComment 1).token.start =
        some ['/', '*', '\u2028', '*', '/'] ∧
      (∃ c ∈ ['/', '*', '\u2028', '*', '/'], isLineTerminator c) ∧
      (Scanner.scanned separatedInComment 1).token = ⟨.identifier, 7, 8, false⟩ :=
  ⟨by decide +kernel, ⟨'\u2028', by simp, by decide⟩, by decide +kernel⟩

end PatternLowering

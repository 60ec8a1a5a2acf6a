import Mathlib
import PatternLowering.Token.Scanner

/-!
# Scanning

A scanner stands on a stretch of its text. Whatever it does, it moves by whole characters and only
forward, and every token but the end of the file takes at least one of them.
-/

namespace PatternLowering

open Cursor

namespace Text

@[simp] lemma size_nil : size [] = 0 := rfl

@[simp] lemma size_cons (c : Char) (rest : Text) :
    size (c :: rest) = c.utf8Size + size rest := rfl

@[simp] lemma size_append (a b : Text) : size (a ++ b) = size a + size b := by
  induction a with
  | nil => simp
  | cons c rest ih => rw [List.cons_append, size_cons, size_cons, ih, Nat.add_assoc]

lemma drop?_cons (c : Char) (rest : Text) (count : Nat) :
    drop? (c.utf8Size + count) (c :: rest) = drop? count rest := by
  obtain ⟨width, eq⟩ : ∃ width, c.utf8Size + count = width + 1 :=
    ⟨c.utf8Size + count - 1, by have := c.utf8Size_pos; omega⟩
  rw [eq, drop?, if_pos (by omega)]
  congr 1
  omega

lemma drop?_append (taken rest : Text) : drop? taken.size (taken ++ rest) = some rest := by
  induction taken with
  | nil => cases rest <;> rfl
  | cons c later ih => rw [List.cons_append, size_cons, drop?_cons, ih]

/-- What is left after a boundary is a suffix of the text. -/
lemma drop?_eq_some {text rest : Text} {offset : Nat} :
    text.drop? offset = some rest ↔ ∃ taken, text = taken ++ rest ∧ taken.size = offset := by
  constructor
  · intro dropped
    induction text generalizing offset with
    | nil =>
      cases offset with
      | zero => exact ⟨[], by simpa [drop?] using dropped, rfl⟩
      | succ _ => cases dropped
    | cons c later ih =>
      cases offset with
      | zero => exact ⟨[], by simpa [drop?] using dropped, rfl⟩
      | succ count =>
        rw [drop?] at dropped
        split at dropped
        · obtain ⟨taken, rfl, size⟩ := ih dropped
          exact ⟨c :: taken, rfl, by rw [size_cons]; omega⟩
        · cases dropped
  · rintro ⟨taken, rfl, rfl⟩
    exact drop?_append taken rest

end Text

namespace Cursor

/-- The cursor is a place in the text. -/
def In (text : Text) (c : Cursor) : Prop := text.drop? c.offset = some c.rest

/-- The second cursor lies behind the first one, or is the same. -/
def Reaches (c c' : Cursor) : Prop :=
  ∃ taken, c.rest = taken ++ c'.rest ∧ c'.offset = c.offset + Text.size taken

lemma in_atStart (text : Text) : (atStart text).In text := by
  cases text <;> rfl

lemma In.isBoundary {text : Text} {c : Cursor} (inside : c.In text) :
    text.isBoundary c.offset := by
  unfold In at inside
  simp [Text.isBoundary, inside]

lemma In.offset_add {text : Text} {c : Cursor} (inside : c.In text) :
    c.offset + Text.size c.rest = text.size := by
  obtain ⟨taken, rfl, size⟩ := Text.drop?_eq_some.mp inside
  rw [Text.size_append, size]

lemma In.of_reaches {text : Text} {c c' : Cursor} (inside : c.In text) (later : c.Reaches c') :
    c'.In text := by
  obtain ⟨before, rfl, size⟩ := Text.drop?_eq_some.mp inside
  obtain ⟨taken, rest, offset⟩ := later
  refine Text.drop?_eq_some.mpr ⟨before ++ taken, by rw [rest, List.append_assoc], ?_⟩
  rw [Text.size_append, size, offset]

namespace Reaches

variable {c c' c'' : Cursor}

lemma refl (c : Cursor) : c.Reaches c := ⟨[], rfl, rfl⟩

lemma trans (first : c.Reaches c') (second : c'.Reaches c'') : c.Reaches c'' := by
  obtain ⟨a, rest, offset⟩ := first
  obtain ⟨b, rest', offset'⟩ := second
  refine ⟨a ++ b, by rw [rest, rest', List.append_assoc], ?_⟩
  rw [offset', offset, Text.size_append, Nat.add_assoc]

lemma le (later : c.Reaches c') : c.offset ≤ c'.offset := by
  obtain ⟨taken, _, offset⟩ := later
  omega

/-- Going over one character. -/
lemma cons {offset : Nat} {x : Char} {rest : Text}
    (later : Reaches ⟨offset + x.utf8Size, rest⟩ c') : Reaches ⟨offset, x :: rest⟩ c' :=
  trans ⟨[x], rfl, by simp⟩ later

end Reaches

lemma reaches_advance (c : Cursor) : c.Reaches c.advance := by
  obtain ⟨offset, rest⟩ := c
  cases rest with
  | nil => exact .refl _
  | cons x rest => exact .cons (.refl _)

lemma reaches_skip (c : Cursor) (count : Nat) : c.Reaches (c.skip count) := by
  induction count generalizing c with
  | zero => exact .refl c
  | succ count ih => exact c.reaches_advance.trans (ih c.advance)

lemma reaches_skipWhile (c : Cursor) (p : Char → Bool) : c.Reaches (c.skipWhile p) := by
  obtain ⟨offset, rest⟩ := c
  unfold skipWhile
  dsimp only
  induction rest generalizing offset with
  | nil => exact .refl _
  | cons x rest ih =>
    rw [skipWhileFrom]
    split
    · exact .cons (ih _)
    · exact .refl _

lemma lt_advance {c : Cursor} (nonempty : c.rest ≠ []) : c.offset < c.advance.offset := by
  obtain ⟨offset, rest⟩ := c
  cases rest with
  | nil => exact absurd rfl nonempty
  | cons x rest =>
    have := x.utf8Size_pos
    simp only [advance]
    omega

/-- A run that takes the first character gets further. -/
lemma lt_skipWhile {c : Cursor} {p : Char → Bool} {x : Char} (first : c.head? = some x)
    (holds : p x) : c.offset < (c.skipWhile p).offset := by
  obtain ⟨offset, rest⟩ := c
  cases rest with
  | nil => cases first
  | cons y rest =>
    cases first
    have further : (⟨offset + x.utf8Size, rest⟩ : Cursor).Reaches
        (skipWhile ⟨offset, x :: rest⟩ p) := by
      have := reaches_skipWhile ⟨offset + x.utf8Size, rest⟩ p
      simpa [skipWhile, skipWhileFrom, holds] using this
    calc offset < offset + x.utf8Size := by have := x.utf8Size_pos; omega
      _ ≤ _ := further.le

end Cursor

open Cursor (Reaches)

lemma Gap.reaches_skipFrom (inside : Inside) (seen : Bool) (offset : Nat) (text : Text) :
    Reaches ⟨offset, text⟩ (skipFrom inside seen offset text).stop := by
  fun_induction skipFrom inside seen offset text with
  | case1 | case6 => exact .refl _
  | case2 _ _ _ ih | case3 _ _ _ ih | case9 _ _ _ _ _ ih => exact .cons (.cons ih)
  | case4 | case5 | case7 | case8 | case10 => exact .cons ‹_›

lemma Gap.reaches_skip (c : Cursor) : c.Reaches (skip c).stop :=
  reaches_skipFrom .spaces false c.offset c.rest

lemma Punctuator.spelling_length_pos (p : Punctuator) : 0 < p.spelling.length := by
  cases p <;> decide

namespace Lexeme

lemma reaches_stringEnd (quote : Char) (offset : Nat) (text : Text) :
    Reaches ⟨offset, text⟩ (stringEnd quote offset text).1 := by
  fun_induction stringEnd quote offset text with
  | case1 | case4 => exact .refl _
  | case2 _ _ ih => exact .cons (.cons (.cons ih))
  | case3 _ _ _ _ ih => exact .cons (.cons ih)
  | case5 => exact .cons (.refl _)
  | case6 => exact .cons ‹_›

lemma reaches_regexEnd (inClass : Bool) (offset : Nat) (text : Text) :
    Reaches ⟨offset, text⟩ (regexEnd inClass offset text).1 := by
  fun_induction regexEnd inClass offset text with
  | case1 | case4 => exact .refl _
  | case2 => exact .cons (.refl _)
  | case3 => exact .cons (.cons ‹_›)
  | case5 => exact .cons ‹_›
  | case6 => exact .cons ‹_›
  | case7 _ _ _ _ _ _ _ _ slash =>
    obtain ⟨rfl, _⟩ := slash
    exact .cons (.refl _)
  | case8 => exact .cons ‹_›

lemma reaches_fraction (c : Cursor) : c.Reaches (fraction c) := by
  unfold fraction
  split
  · exact c.reaches_advance.trans (c.advance.reaches_skipWhile _)
  · exact .refl c

lemma reaches_exponent (c : Cursor) : c.Reaches (exponent c) := by
  unfold exponent
  split
  · split
    · exact (c.reaches_skip 2).trans (reaches_skipWhile _ _)
    · split
      · exact c.reaches_advance.trans (reaches_skipWhile _ _)
      · exact .refl c
  · split
    · exact c.reaches_advance.trans (reaches_skipWhile _ _)
    · exact .refl c
  · exact .refl c

lemma reaches_number (c : Cursor) : c.Reaches (number c).stop := by
  unfold number
  dsimp only
  split
  · exact (c.reaches_skip 2).trans (reaches_skipWhile _ _)
  · exact (c.reaches_skip 2).trans (reaches_skipWhile _ _)
  · exact ((c.reaches_skipWhile _).trans (reaches_fraction _)).trans (reaches_exponent _)

lemma word_stop (c : Cursor) : (word c).stop = c.skipWhile isNamePart := by
  unfold word
  dsimp only
  split <;> rfl

lemma reaches_string (quote : Char) (c : Cursor) : c.Reaches (string quote c).stop :=
  c.reaches_advance.trans (reaches_stringEnd quote _ _)

lemma reaches_regex_advance (c : Cursor) : c.advance.Reaches (regex c).stop := by
  unfold regex
  dsimp only
  split
  · exact (reaches_regexEnd false _ _).trans (reaches_skipWhile _ _)
  · exact reaches_regexEnd false _ _

lemma reaches_regex (c : Cursor) : c.Reaches (regex c).stop :=
  c.reaches_advance.trans (reaches_regex_advance c)

/-- The lexemes that may be read at a cursor. -/
inductive Found (c : Cursor) : Lexeme → Prop where
  | endOfFile (empty : c.rest = []) : Found c ⟨.endOfFile, c, none⟩
  | keyword {x : Char} {rest : Text} {k : Keyword} (more : c.rest = x :: rest)
      (starts : isNameStart x)
    (spelled : Keyword.ofSpelling? (String.ofList (c.textUpTo (c.skipWhile isNamePart))) = some k) :
    Found c ⟨.keyword k, c.skipWhile isNamePart, none⟩
  | identifier {x : Char} {rest : Text} (more : c.rest = x :: rest) (starts : isNameStart x)
    (other : Keyword.ofSpelling? (String.ofList (c.textUpTo (c.skipWhile isNamePart))) = none) :
    Found c ⟨.identifier, c.skipWhile isNamePart, none⟩
  | number (starts : startsNumber c.rest) : Found c (number c)
  | string (quote : Char) : Found c (string quote c)
  | punctuator {p : Punctuator} (found : Punctuator.at? c.rest = some p) :
    Found c ⟨.punctuator p, c.skip p.spelling.length, none⟩
  | unknown (x : Char) : Found c ⟨.unknown, c.advance, some (.unexpectedCharacter x)⟩

lemma found_read (c : Cursor) : Found c (read c) := by
  unfold read
  split
  · exact .endOfFile ‹_›
  · split
    · unfold word
      dsimp only
      split
      · exact .keyword ‹_› ‹_› ‹_›
      · exact .identifier ‹_› ‹_› ‹_›
    · split
      · exact .number ‹_›
      · split
        · exact .string _
        · split
          · exact .punctuator ‹_›
          · exact .unknown _

variable {lexeme : Lexeme}

lemma Found.reaches {c : Cursor} (found : Found c lexeme) : c.Reaches lexeme.stop := by
  cases found with
  | endOfFile => exact .refl c
  | number => exact reaches_number c
  | string => exact reaches_string _ c
  | punctuator => exact c.reaches_skip _
  | unknown => exact c.reaches_advance
  | _ => exact c.reaches_skipWhile _

lemma reaches_read (c : Cursor) : c.Reaches (read c).stop := (found_read c).reaches

lemma isNamePart_of_isNameStart {c : Char} (first : isNameStart c) : isNamePart c := by
  have letter : Letters.isAlphabetic c → Letters.isAlphanumeric c := by
    unfold Letters.isAlphabetic Letters.isAlphanumeric Char.isAlphanum
    split <;> intro h <;> simp [h]
  simp only [isNameStart, isNamePart, Bool.or_eq_true, decide_eq_true_eq] at first ⊢
  tauto

lemma lt_number {c : Cursor} (starts : startsNumber c.rest) :
    c.offset < (number c).stop.offset := by
  have prefixed : c.rest ≠ [] → c.offset < ((c.skip 2).skipWhile Letters.isHexDigit).offset :=
    fun nonempty => (lt_advance nonempty).trans_le
      ((c.advance.reaches_skip 1).trans (reaches_skipWhile _ _)).le
  unfold number
  dsimp only
  split
  · rename_i eq
    exact prefixed (by simp [eq])
  · rename_i eq
    exact prefixed (by simp [eq])
  · refine lt_of_lt_of_le ?_ (reaches_exponent _).le
    obtain ⟨offset, rest⟩ := c
    cases rest with
    | nil => cases starts
    | cons x rest =>
      by_cases digit : x.isDigit
      · exact (lt_skipWhile rfl digit).trans_le (reaches_fraction _).le
      · -- The number starts with its point.
        have point : x = '.' := by
          simp only [startsNumber, digit, Bool.false_or, Bool.and_eq_true,
            decide_eq_true_eq] at starts
          exact starts.1
        subst point
        have none : Cursor.skipWhile ⟨offset, '.' :: rest⟩ Char.isDigit = ⟨offset, '.' :: rest⟩ :=
          rfl
        rw [none, fraction, if_pos (by rfl)]
        exact (lt_advance (by simp)).trans_le (reaches_skipWhile _ _).le

/-- A lexeme takes at least one character if there is one. -/
lemma Found.lt {c : Cursor} (found : Found c lexeme) (nonempty : c.rest ≠ []) :
    c.offset < lexeme.stop.offset := by
  have name {x : Char} {rest : Text} (more : c.rest = x :: rest) (starts : isNameStart x) :
      c.offset < (c.skipWhile isNamePart).offset :=
    lt_skipWhile (by simp [Cursor.head?, more]) (isNamePart_of_isNameStart starts)
  cases found with
  | endOfFile empty => exact absurd empty nonempty
  | keyword more starts => exact name more starts
  | identifier more starts => exact name more starts
  | number starts => exact lt_number starts
  | string => exact (lt_advance nonempty).trans_le (reaches_stringEnd _ _ _).le
  | @punctuator p =>
    obtain ⟨length, spelled⟩ := Nat.exists_eq_succ_of_ne_zero p.spelling_length_pos.ne'
    rw [spelled]
    exact (lt_advance nonempty).trans_le (c.advance.reaches_skip length).le
  | unknown => exact lt_advance nonempty

lemma lt_read {c : Cursor} (nonempty : c.rest ≠ []) : c.offset < (read c).stop.offset :=
  (found_read c).lt nonempty

lemma read_kind_eq_endOfFile {c : Cursor} (none : c.rest = []) : (read c).kind = .endOfFile := by
  unfold read
  split
  · rfl
  · simp_all

lemma Found.rest_of_endOfFile {c : Cursor} (found : Found c lexeme)
    (isEnd : lexeme.kind = .endOfFile) : c.rest = [] := by
  cases found with
  | endOfFile empty => exact empty
  | _ => cases isEnd

/-- An unknown character is an error. -/
lemma Found.error_of_unknown {c : Cursor} (found : Found c lexeme)
    (unknown : lexeme.kind = .unknown) : lexeme.error ≠ none := by
  cases found with
  | unknown x => exact Option.some_ne_none _
  | _ => cases unknown

end Lexeme

namespace Scanner

/-- The scanner stands on a token of the text. -/
structure Stands (text : Text) (s : Scanner) : Prop where
  opening : s.opening.In text
  closing : s.opening.Reaches s.closing
  start : s.token.start = s.opening.offset
  stop : s.token.stop = s.closing.offset
  width : s.token.kind ≠ .endOfFile → s.token.start < s.token.stop

variable {text : Text} {s : Scanner}

namespace Stands

lemma settle {opening : Cursor} {lexeme : Lexeme} {lineBreak : Bool}
    {faults : List SyntaxFault} (inside : opening.In text) (reaches : opening.Reaches lexeme.stop)
    (width : lexeme.kind ≠ .endOfFile → opening.offset < lexeme.stop.offset) :
    (Scanner.settle opening lexeme lineBreak faults).Stands text :=
  ⟨inside, reaches, rfl, rfl, width⟩

variable (stands : s.Stands text)

include stands

lemma start_le_stop : s.token.start ≤ s.token.stop := by
  rw [stands.start, stands.stop]
  exact stands.closing.le

lemma closing_in : s.closing.In text :=
  stands.opening.of_reaches stands.closing

lemma stop_le_size : s.token.stop ≤ text.size := by
  have := stands.closing_in.offset_add
  rw [stands.stop]
  omega

lemma isBoundary_start : text.isBoundary s.token.start := by
  rw [stands.start]
  exact stands.opening.isBoundary

lemma isBoundary_stop : text.isBoundary s.token.stop := by
  rw [stands.stop]
  exact stands.closing_in.isBoundary

lemma takeFaults : s.takeFaults.2.Stands text :=
  ⟨stands.opening, stands.closing, stands.start, stands.stop, stands.width⟩

end Stands

/-- The next token is behind this one. -/
lemma stands_scan (inside : s.closing.In text) :
    s.scan.Stands text ∧ s.closing.offset ≤ s.scan.token.start := by
  have gap := Gap.reaches_skip s.closing
  refine ⟨.settle (inside.of_reaches gap) (Lexeme.reaches_read _) fun more => ?_, gap.le⟩
  exact Lexeme.lt_read fun none => more (Lexeme.read_kind_eq_endOfFile none)

/-- Reading a slash again does not move the start of the token. -/
lemma Stands.rescanSlash (stands : s.Stands text) :
    s.rescanSlash.Stands text ∧ s.rescanSlash.token.start = s.token.start := by
  unfold Scanner.rescanSlash
  split
  · rename_i slash
    refine ⟨.settle stands.opening (Lexeme.reaches_regex _) fun _ => ?_, stands.start.symm⟩
    have wide : s.token.start < s.token.stop :=
      stands.width fun same => by simp [same] at slash
    have nonempty : s.opening.rest ≠ [] := by
      intro none
      obtain ⟨taken, rest, offset⟩ := stands.closing
      rw [none] at rest
      obtain ⟨rfl, _⟩ := List.append_eq_nil_iff.mp rest.symm
      rw [stands.start, stands.stop, offset] at wide
      simp at wide
    exact (lt_advance nonempty).trans_le (Lexeme.reaches_regex_advance _).le
  · exact ⟨stands, rfl⟩

lemma faults_of_scan_unknown (unknown : s.scan.token.kind = .unknown) : s.scan.faults ≠ [] := by
  have error := (Lexeme.found_read _).error_of_unknown unknown
  cases found : (Lexeme.read (Gap.skip s.closing).stop).error with
  | none => exact absurd found error
  | some error => simp [scan, Scanner.settle, found]

/-- The states of a scanner on its way through a text. -/
inductive Run (text : Text) : Scanner → Prop where
  | first : Run text (ofText text).scan
  | scan {s : Scanner} (before : Run text s) : Run text s.scan
  | rescanSlash {s : Scanner} (before : Run text s) : Run text s.rescanSlash
  | takeFaults {s : Scanner} (before : Run text s) : Run text s.takeFaults.2

lemma Run.stands (run : Run text s) : s.Stands text := by
  induction run with
  | first => exact (stands_scan (in_atStart text)).1
  | scan _ ih => exact (stands_scan ih.closing_in).1
  | rescanSlash _ ih => exact ih.rescanSlash.1
  | takeFaults _ ih => exact ih.takeFaults

end Scanner

namespace Text

/-- A token starts at the offset. -/
def Opens (text : Text) (offset : Nat) : Prop :=
  ∃ s : Scanner, s.Run text ∧ s.token.start = offset

/-- A token stops at the offset. -/
def Closes (text : Text) (offset : Nat) : Prop :=
  ∃ s : Scanner, s.Run text ∧ s.token.stop = offset

lemma Opens.isBoundary {text : Text} {offset : Nat} (opens : text.Opens offset) :
    text.isBoundary offset := by
  obtain ⟨s, run, rfl⟩ := opens
  exact run.stands.isBoundary_start

lemma Closes.isBoundary {text : Text} {offset : Nat} (closes : text.Closes offset) :
    text.isBoundary offset := by
  obtain ⟨s, run, rfl⟩ := closes
  exact run.stands.isBoundary_stop

end Text

end PatternLowering

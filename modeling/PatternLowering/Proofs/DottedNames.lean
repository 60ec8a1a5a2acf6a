import PatternLowering.Proofs.Tiling

/-!
# Names behind a dot

The value of a string key follows a dot when it looks like a name, and is kept in brackets when not.
What looks like a name is decided twice: here by the properties of the characters, and in the
scanner, which skips gaps first, tells small characters from others and lets joiners stand inside a
name. Both are compared with the Unicode properties, and so with one another: what is put behind a
dot is read back as one name.
-/

namespace PatternLowering

open List

namespace Ranges

/-- A character with one of two properties that share no code point lacks the other. -/
lemma holds_eq_false {a b : Ranges} {c : Char}
    (apart : (a.all fun x => b.all fun y => x.2 < y.1 || y.2 < x.1) = true) (holds : a.holds c) :
    b.holds c = false := by
  by_contra both
  rw [Bool.not_eq_false] at both
  obtain ⟨x, isX, inX⟩ := any_eq_true.mp holds
  obtain ⟨y, isY, inY⟩ := any_eq_true.mp both
  have := all_eq_true.mp (all_eq_true.mp apart x isX) y isY
  simp only [Bool.and_eq_true, Bool.or_eq_true, decide_eq_true_eq] at inX inY this
  omega

/-- Of a small character the first ranges of a property tell all. -/
lemma holds_take {ranges : Ranges} {c : Char} (count : Nat)
    (large : ((ranges.drop count).all fun x => 0x80 ≤ x.1) = true) (small : Letters.isAscii c) :
    ranges.holds c = holds (ranges.take count) c := by
  have none : holds (ranges.drop count) c = false := by
    refine any_eq_false.mpr fun x mem => ?_
    have low := all_eq_true.mp large x mem
    simp only [Letters.isAscii, decide_eq_true_eq] at small low
    simp only [Bool.and_eq_true, decide_eq_true_eq]
    omega
  calc ranges.holds c = holds (ranges.take count ++ ranges.drop count) c := by rw [take_append_drop]
    _ = (holds (ranges.take count) c || holds (ranges.drop count) c) := any_append
    _ = holds (ranges.take count) c := by rw [none, Bool.or_false]

end Ranges

namespace Letters

/-- What holds of all small characters by evaluation. -/
lemma eq_of_isAscii {p q : Char → Bool} {c : Char} (small : isAscii c)
    (same : ∀ n < 0x80, p (Char.ofNat n) = q (Char.ofNat n)) : p c = q c := by
  have := same c.toNat (by simpa [isAscii] using small)
  rwa [Char.ofNat_toNat] at this

lemma isAlphabetic_eq (c : Char) : isAlphabetic c = Ranges.alphabetic.holds c := by
  unfold isAlphabetic
  split
  · rename_i small
    rw [Ranges.holds_take 2 (by decide +kernel) small]
    exact eq_of_isAscii small (by decide +kernel)
  · rfl

lemma isAlphanumeric_eq (c : Char) :
    isAlphanumeric c = (Ranges.alphabetic.holds c || Ranges.numeric.holds c) := by
  unfold isAlphanumeric
  split
  · rename_i small
    have digit : c.isDigit = Ranges.numeric.holds c := by
      rw [Ranges.holds_take 1 (by decide +kernel) small]
      exact eq_of_isAscii small (by decide +kernel)
    rw [← isAlphabetic_eq, isAlphabetic, if_pos small, Char.isAlphanum, digit]
  · rfl

end Letters

variable {c : Char}

lemma isNameStart_iff : isNameStart c ↔ c = '_' ∨ c = '$' ∨ Ranges.alphabetic.holds c := by
  simp [isNameStart, Letters.isAlphabetic_eq, or_assoc]

lemma isNamePart_iff :
    isNamePart c ↔ (c = '_' ∨ c = '$' ∨ Ranges.alphabetic.holds c ∨ Ranges.numeric.holds c) ∨
      c = '\u200c' ∨ c = '\u200d' := by
  simp [isNamePart, Letters.isAlphanumeric_eq, or_assoc]

/-- The point, the slash and the digits, the byte order mark and the blanks. -/
def Ranges.apart : Ranges := (0x2e, 0x39) :: (0xfeff, 0xfeff) :: blank

/-- No name starts with one of these. -/
lemma apart_of_isNameStart (starts : isNameStart c) : Ranges.apart.holds c = false := by
  rcases isNameStart_iff.mp starts with rfl | rfl | letter
  · decide
  · decide
  · exact Ranges.holds_eq_false (by decide +kernel) letter

lemma isNameStart_apart (starts : isNameStart c) :
    c ≠ '.' ∧ c ≠ '/' ∧ c.isDigit = false ∧ isLineTerminator c = false ∧ isSpacing c = false := by
  have none := apart_of_isNameStart starts
  have other {d : Char} (holds : Ranges.apart.holds d) : c ≠ d := by
    rintro rfl
    cases holds.symm.trans none
  refine ⟨other (by decide), other (by decide), ?_, ?_, ?_⟩
  · simp only [Ranges.holds, Ranges.apart, any_cons, Bool.or_eq_false_iff, Bool.and_eq_false_iff,
      decide_eq_false_iff_not] at none
    simp only [Char.isDigit, Bool.and_eq_false_iff, decide_eq_false_iff_not, UInt32.le_iff_toNat_le]
    change ¬ 0x30 ≤ c.toNat ∨ ¬ c.toNat ≤ 0x39
    omega
  · simp only [isLineTerminator, isLineEnd, Bool.or_eq_false_iff, decide_eq_false_iff_not]
    exact ⟨⟨⟨other (by decide), other (by decide)⟩, other (by decide)⟩, other (by decide)⟩
  · have noMark : c ≠ '\ufeff' := other (by decide)
    simp only [Ranges.holds, Ranges.apart, any_cons, Bool.or_eq_false_iff] at none
    simp only [isSpacing, noMark, decide_false, Bool.or_false]
    exact none.2.2

/-- Nothing is skipped before a name. -/
lemma Gap.skip_of_isNameStart (starts : isNameStart c) (offset : Nat) (rest : Text) :
    skip ⟨offset, c :: rest⟩ = ⟨⟨offset, c :: rest⟩, false, none⟩ := by
  obtain ⟨_, noSlash, _, noEnd, noSpace⟩ := isNameStart_apart starts
  rw [skip, skipFrom, noEnd, noSpace]
  · rfl
  · exact fun _ same => absurd same noSlash
  · exact fun _ same => absurd same noSlash

/-- Before a name a point is a token of its own: it belongs to no number and to no ellipsis. -/
lemma Lexeme.read_dot (starts : isNameStart c) (offset : Nat) (rest : Text) :
    read ⟨offset, '.' :: c :: rest⟩ = ⟨.punctuator .dot, ⟨offset + 1, c :: rest⟩, none⟩ := by
  obtain ⟨noPoint, _, noDigit, _⟩ := isNameStart_apart starts
  have number : startsNumber ('.' :: c :: rest) = false := by
    simp only [startsNumber, head?_cons, Option.any_some, noDigit, Bool.and_false, Bool.or_false]
    decide
  have ellipsis : ¬ Punctuator.ellipsis.spelling.toList.isPrefixOf ('.' :: c :: rest) = true := by
    simpa [Punctuator.spelling, List.isPrefixOf] using fun same => absurd same.symm noPoint
  have point : Punctuator.at? ('.' :: c :: rest) = some .dot := by
    refine (find?_cons_of_neg Bool.false_ne_true).trans ((find?_cons_of_neg ?_).trans rfl)
    exact ellipsis
  unfold read
  dsimp only
  rw [if_neg (by decide), number, if_neg (by decide), if_neg (by decide), point]
  rfl

namespace Cursor

lemma skipWhile_append {p : Char → Bool} {taken later : Text} (offset : Nat)
    (all : ∀ c ∈ taken, p c) (ends : ∀ c ∈ later.head?, ¬ p c) :
    skipWhile ⟨offset, taken ++ later⟩ p = ⟨offset + taken.size, later⟩ := by
  unfold skipWhile
  dsimp only
  induction taken generalizing offset with
  | nil =>
    cases later with
    | nil => rfl
    | cons c later => exact if_neg (ends c rfl)
  | cons c taken ih =>
    rw [cons_append, skipWhileFrom, if_pos (all c (by simp)),
      ih _ fun c mem => all c (by simp [mem]), Text.size_cons, Nat.add_assoc]

/-- A run that goes on to the end takes every character. -/
lemma all_of_skipWhile {p : Char → Bool} {offset : Nat} {text : Text}
    (whole : (skipWhile ⟨offset, text⟩ p).rest = []) : ∀ c ∈ text, p c := by
  unfold skipWhile at whole
  dsimp only at whole
  induction text generalizing offset with
  | nil => simp
  | cons c text ih =>
    rw [skipWhileFrom] at whole
    split at whole
    · exact forall_mem_cons.mpr ⟨‹_›, ih whole⟩
    · cases whole

end Cursor

namespace Text

/-- A name by the properties of its characters alone: letters of any script, `_` and `$`, and behind
the first character numbers too. -/
def IsPlainName (text : Text) : Prop :=
  ∃ first rest, text = first :: rest ∧ (first = '_' ∨ first = '$' ∨ Ranges.alphabetic.holds first) ∧
    ∀ c ∈ rest, c = '_' ∨ c = '$' ∨ Ranges.alphabetic.holds c ∨ Ranges.numeric.holds c

/-- Scanned from the start, the text is one token, a name or a keyword that takes all of it, and
then the end of the file comes; there is no error. -/
structure IsOneWord (text : Text) : Prop where
  kind : (Scanner.scanned text 1).token.kind.isWord
  start : (Scanner.scanned text 1).token.start = 0
  stop : (Scanner.scanned text 1).token.stop = text.size
  last : (Scanner.scanned text 2).token.kind = .endOfFile
  clean : (Scanner.scanned text 2).faults = []

end Text

lemma isIdentifierName_iff {word : String} :
    isIdentifierName word ↔ Text.IsPlainName word.toList := by
  unfold isIdentifierName Text.IsPlainName
  cases word.toList with
  | nil => simp
  | cons first rest =>
    simp only [Bool.and_eq_true, isNameStart_iff, all_eq_true, Letters.isAlphanumeric_eq,
      Bool.or_eq_true, decide_eq_true_eq, or_assoc, List.cons.injEq]
    constructor
    · intro name
      exact ⟨first, rest, ⟨rfl, rfl⟩, name⟩
    · rintro ⟨_, _, ⟨rfl, rfl⟩, starts, goesOn⟩
      exact ⟨starts, goesOn⟩

lemma Lexeme.word_isWord (c : Cursor) : (word c).kind.isWord ∧ (word c).error = none := by
  unfold word
  dsimp only
  split <;> exact ⟨rfl, rfl⟩

namespace Scanner

variable {s : Scanner} {word later rest : Text} {first : Char}

/-- The next token is the word: a name or a keyword right behind the current token, without an
error. -/
structure ReadsWord (s : Scanner) (word : Text) : Prop where
  kind : s.scan.token.kind.isWord
  start : s.scan.token.start = s.closing.offset
  stop : s.scan.token.stop = s.closing.offset + word.size
  lexeme : s.scan.lexeme = word
  faults : s.scan.faults = s.faults

/-- The next two tokens are a dot and the word behind it. -/
structure ReadsMember (s : Scanner) (word : Text) : Prop where
  dot : s.scan.token = ⟨.punctuator .dot, s.closing.offset, s.closing.offset + 1, false⟩
  faults : s.scan.faults = s.faults
  name : s.scan.ReadsWord word

/-- Nothing is skipped and the lexeme is read where the scanner stands. -/
lemma scan_eq {lexeme : Lexeme} (gap : Gap.skip s.closing = ⟨s.closing, false, none⟩)
    (read : Lexeme.read s.closing = lexeme) : s.scan = settle s.closing lexeme false s.faults := by
  simp only [scan, gap, read, Option.toList_none, map_nil, append_nil]

lemma scan_of_isNameStart (here : s.closing.rest = first :: rest) (starts : isNameStart first) :
    s.scan = settle s.closing (Lexeme.word s.closing) false s.faults := by
  obtain ⟨_, _, ⟨offset, _⟩, _⟩ := s
  cases here
  exact scan_eq (Gap.skip_of_isNameStart starts offset rest) (if_pos starts)

lemma scan_of_dot (here : s.closing.rest = '.' :: first :: rest) (starts : isNameStart first) :
    s.scan = settle s.closing ⟨.punctuator .dot, ⟨s.closing.offset + 1, first :: rest⟩, none⟩ false
      s.faults := by
  obtain ⟨_, _, ⟨offset, _⟩, _⟩ := s
  cases here
  exact scan_eq rfl (Lexeme.read_dot starts offset rest)

lemma scan_of_nil (here : s.closing.rest = []) :
    s.scan = settle s.closing ⟨.endOfFile, s.closing, none⟩ false s.faults := by
  obtain ⟨_, _, ⟨_, _⟩, _⟩ := s
  cases here
  exact scan_eq rfl rfl

/-- A word that looks like a name is read up to where no more of a name follows. -/
lemma readsWord_of_isPlainName (plain : word.IsPlainName) (here : s.closing.rest = word ++ later)
    (ends : ∀ c ∈ later.head?, ¬ isNamePart c) :
    s.ReadsWord word ∧ s.scan.closing = ⟨s.closing.offset + word.size, later⟩ := by
  obtain ⟨first, rest, rfl, starts, goesOn⟩ := plain
  have starts := isNameStart_iff.mpr starts
  have parts : ∀ c ∈ first :: rest, isNamePart c :=
    forall_mem_cons.mpr ⟨Lexeme.isNamePart_of_isNameStart starts,
      fun c mem => isNamePart_iff.mpr (.inl (goesOn c mem))⟩
  have stop :
      (Lexeme.word s.closing).stop = ⟨s.closing.offset + Text.size (first :: rest), later⟩ := by
    have := Cursor.skipWhile_append s.closing.offset parts ends
    rwa [← here, ← Lexeme.word_stop] at this
  have text : s.closing.textUpTo (Lexeme.word s.closing).stop = first :: rest := by
    rw [stop, Cursor.textUpTo, Nat.add_sub_cancel_left, here, Text.take?_append]
    rfl
  obtain ⟨isWord, noError⟩ := Lexeme.word_isWord s.closing
  have scanned := scan_of_isNameStart here starts
  refine ⟨⟨?_, ?_, ?_, ?_, ?_⟩, ?_⟩ <;> rw [scanned]
  · exact isWord
  · rfl
  · exact congrArg Cursor.offset stop
  · exact text
  · simp [settle, noError]
  · exact stop

/-- An access by a word that looks like a name is read as a dot and that word. -/
lemma readsMember_of_isPlainName (plain : word.IsPlainName)
    (here : s.closing.rest = '.' :: (word ++ later)) (ends : ∀ c ∈ later.head?, ¬ isNamePart c) :
    s.ReadsMember word := by
  obtain ⟨first, rest, rfl, starts, _⟩ := id plain
  have scanned := scan_of_dot here (isNameStart_iff.mpr starts)
  constructor
  · rw [scanned]
    rfl
  · rw [scanned]
    simp [settle]
  · exact (readsWord_of_isPlainName plain (by rw [scanned]; rfl) ends).1

end Scanner

namespace Text

variable {text : Text}

lemma IsPlainName.isOneWord (plain : text.IsPlainName) : text.IsOneWord := by
  obtain ⟨reads, closing⟩ := Scanner.readsWord_of_isPlainName (s := .ofText text) plain
    (append_nil text).symm (by simp)
  have scanned : Scanner.scanned text 2 = _ := Scanner.scan_of_nil (congrArg Cursor.rest closing)
  constructor
  · exact reads.kind
  · exact reads.start
  · exact reads.stop.trans (Nat.zero_add _)
  · rw [scanned]
    rfl
  · rw [scanned]
    exact (append_nil _).trans reads.faults

/-- A text that is one word has no gap before the word, and the run of name parts takes it all. -/
lemma IsOneWord.isPlainName (one : text.IsOneWord) (noJoiner : '\u200c' ∉ text)
    (noOther : '\u200d' ∉ text) : text.IsPlainName := by
  have place : (Gap.skip (.atStart text)).stop = .atStart text := by
    obtain ⟨taken, cut, offset⟩ := Gap.reaches_skip (.atStart text)
    have start : (Gap.skip (.atStart text)).stop.offset = 0 := one.start
    obtain rfl : taken = [] := size_eq_zero.mp (by omega)
    exact congrArg₂ Cursor.mk start cut.symm
  have kind : (Lexeme.read (.atStart text)).kind.isWord := place ▸ one.kind
  have stop : (Lexeme.read (.atStart text)).stop.offset = text.size := place ▸ one.stop
  have name {x : Char} {rest : Text} (more : text = x :: rest) (starts : isNameStart x)
      (whole : ((Cursor.atStart text).skipWhile isNamePart).offset = text.size) :
        text.IsPlainName := by
    have reached := ((Cursor.in_atStart text).of_reaches
      (Cursor.reaches_skipWhile _ isNamePart)).offset_add
    have nothing : ((Cursor.atStart text).skipWhile isNamePart).rest = [] :=
      size_eq_zero.mp (by omega)
    have parts := Cursor.all_of_skipWhile nothing
    refine ⟨x, rest, more, isNameStart_iff.mp starts, fun c later => ?_⟩
    have mem : c ∈ text := more ▸ mem_cons_of_mem x later
    refine (isNamePart_iff.mp (parts c mem)).resolve_right ?_
    rintro (rfl | rfl)
    · exact noJoiner mem
    · exact noOther mem
  have found := Lexeme.found_read (.atStart text)
  generalize Lexeme.read (.atStart text) = lexeme at found kind stop
  cases found with
  | keyword more starts => exact name more starts stop
  | identifier more starts => exact name more starts stop
  | _ => cases kind

end Text

/-- The value of a string key follows a dot only if it looks like a name. -/
lemma keyAccessor_eq_member {t : Table} {buffer : EditBuffer} {key : NodeId} {word name : String}
    (isString : t.form? key = some (.string (some word)))
    (accessed : Pattern.keyAccessor t buffer key = .ok (.member name)) :
    name = word ∧ isIdentifierName word := by
  rw [Pattern.keyAccessor, isString] at accessed
  dsimp only at accessed
  split at accessed
  · cases accessed
    exact ⟨rfl, ‹_›⟩
  · rw [Pattern.keyAccessor.literalKey] at accessed
    cases text : Pattern.nodeText t buffer key <;> rw [text] at accessed <;> cases accessed

/-- Dotted access is used only for names that the scanner reads back. A word without joiners is
taken for a name if and only if scanning it gives one name or keyword that takes all of it, and no
error. So where the value of a string key follows a dot, with anything behind it that does not go on
with the name, the dot and that one name are scanned. -/
theorem dotted_names_scan_back (word : String) (noJoiner : '\u200c' ∉ word.toList)
    (noOther : '\u200d' ∉ word.toList) : (isIdentifierName word ↔ Text.IsOneWord word.toList) ∧
      ∀ (t : Table) (buffer : EditBuffer) (key : NodeId) (name : String),
        t.form? key = some (.string (some word)) → Pattern.keyAccessor t buffer key = .ok
          (.member name) →
        name = word ∧ ∀ (s : Scanner) (later : Text),
          s.closing.rest = (Accessor.member name).text.toList ++ later →
            (∀ c ∈ later.head?, ¬ isNamePart c) →
          s.ReadsMember word.toList := by
  constructor
  · rw [isIdentifierName_iff]
    exact ⟨fun plain => plain.isOneWord, fun one => one.isPlainName noJoiner noOther⟩
  · intro t buffer key name isString accessed
    obtain ⟨rfl, looks⟩ := keyAccessor_eq_member isString accessed
    refine ⟨rfl, fun s later here ends => ?_⟩
    rw [Accessor.text, String.toList_append] at here
    exact Scanner.readsMember_of_isPlainName (isIdentifierName_iff.mp looks) here ends

/-- A pattern with a quoted key whose letters are not all in ASCII. -/
def umlautKey : Table := (Parsed.ofText "var \x7b'größe': a\x7d = x;".toList).table

theorem umlautKey_scans_back :
    Text.IsOneWord "größe".toList ∧ Pattern.keyAccessor umlautKey (.ofText []) 0 = .ok
      (.member "größe") ∧
      (Scanner.scanned "var a = x.größe;".toList 4).ReadsMember "größe".toList := by
  have looks : isIdentifierName "größe" = true := by decide +kernel
  have isKey : umlautKey.form? 0 = some (.string (some "größe")) := by decide +kernel
  have accessed : Pattern.keyAccessor umlautKey (.ofText []) 0 = .ok (.member "größe") := by
    rw [Pattern.keyAccessor, isKey]
    exact if_pos looks
  have place : (Scanner.scanned "var a = x.größe;".toList 4).closing.rest =
      (Accessor.member "größe").text.toList ++ [';'] := by decide +kernel
  obtain ⟨reads, behind⟩ := dotted_names_scan_back "größe" (by decide) (by decide)
  exact ⟨reads.mp looks, accessed, (behind _ _ 0 _ isKey accessed).2 _ [';'] place
    (by rintro c ⟨⟩; decide)⟩

end PatternLowering

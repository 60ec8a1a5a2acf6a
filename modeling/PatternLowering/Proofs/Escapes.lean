import Mathlib
import PatternLowering.Token.Cooked
import PatternLowering.Token.Gap

/-!
# The escapes of string literals

A string body has a cooked form if it can be cut into plain characters and escapes, and then the
cooked form joins their values. The numbers that come up on the way fit into 32 bits.
-/

namespace PatternLowering.Cooked

open List

/-! ### Hexadecimal numbers -/

/-- The character writes the digit, in either case. -/
def IsHexDigit (c : Char) (digit : Nat) : Prop :=
  digit < 16 ∧ (c = digit.digitChar ∨ c = digit.digitChar.toUpper)

instance (c : Char) (digit : Nat) : Decidable (IsHexDigit c digit) :=
  inferInstanceAs (Decidable (_ ∧ _))

variable {c : Char} {number code : Nat} {rest : Text}

lemma lt_of_hexValue? (found : Letters.hexValue? c ≠ none) : c.toNat < 128 := by
  have below {hi : Char} (le : c ≤ hi) : c.toNat ≤ hi.toNat := le
  unfold Letters.hexValue? at found
  split at found
  · rename_i isDigit
    exact (Char.isDigit_iff_toNat.mp isDigit).2.trans_lt (by decide)
  · split at found
    · rename_i letter
      exact (below letter.2).trans_lt (by decide)
    · split at found
      · rename_i letter
        exact (below letter.2).trans_lt (by decide)
      · exact absurd rfl found

lemma hexValue?_eq_some {digit : Nat} : Letters.hexValue? c = some digit ↔ IsHexDigit c digit := by
  constructor
  · intro found
    have ascii : ∀ code < 128, ∀ digit ∈ Letters.hexValue? (Char.ofNat code),
        IsHexDigit (Char.ofNat code) digit := by
      decide
    have small : c.toNat < 128 := lt_of_hexValue? (by simp [found])
    have isDigit := ascii c.toNat small
    rw [Char.ofNat_toNat] at isDigit
    exact isDigit digit found
  · rintro ⟨small, same | same⟩ <;> subst same <;> interval_cases digit <;> decide

/-- The characters write the number in hexadecimal digits. -/
def HexNumber (spelling : Text) (number : Nat) : Prop :=
  ∃ digits, List.Forall₂ IsHexDigit spelling digits ∧ number = Nat.ofDigits 16 digits.reverse

lemma hexNumber_nil : HexNumber [] number ↔ number = 0 := by
  simp [HexNumber]

lemma hexNumber_cons {spelling : Text} : HexNumber (c :: spelling) number ↔
    ∃ digit later, IsHexDigit c digit ∧ HexNumber spelling later ∧
      number = digit * 16 ^ spelling.length + later := by
  constructor
  · rintro ⟨_, _ | ⟨isDigit, rest⟩, rfl⟩
    refine ⟨_, _, isDigit, ⟨_, rest, rfl⟩, ?_⟩
    rw [Nat.ofDigits_reverse_cons, rest.length_eq]
    ring
  · rintro ⟨digit, _, isDigit, ⟨digits, rest, rfl⟩, rfl⟩
    refine ⟨digit :: digits, .cons isDigit rest, ?_⟩
    rw [Nat.ofDigits_reverse_cons, rest.length_eq]
    ring

lemma HexNumber.lt {spelling : Text} (isNumber : HexNumber spelling number) :
    number < 16 ^ spelling.length := by
  induction spelling generalizing number with
  | nil => simp [hexNumber_nil.mp isNumber]
  | cons c spelling ih =>
    obtain ⟨digit, later, isDigit, rest, rfl⟩ := hexNumber_cons.mp isNumber
    have small : digit + 1 ≤ 16 := isDigit.1
    calc digit * 16 ^ spelling.length + later
      _ < digit * 16 ^ spelling.length + 16 ^ spelling.length := Nat.add_lt_add_left (ih rest) _
      _ = (digit + 1) * 16 ^ spelling.length := by ring
      _ ≤ 16 * 16 ^ spelling.length := Nat.mul_le_mul_right _ small
      _ = 16 ^ (spelling.length + 1) := by ring

lemma hex2?_eq_some {a b : Char} : hex2? a b = some number ↔ HexNumber [a, b] number := by
  simp only [hex2?, hexNumber_cons, hexNumber_nil, ← hexValue?_eq_some]
  cases Letters.hexValue? a <;> cases Letters.hexValue? b <;> simp [eq_comm]

lemma hex4?_eq_some {a b c d : Char} :
    hex4? a b c d = some number ↔ HexNumber [a, b, c, d] number := by
  simp only [hex4?, hex2?, hexNumber_cons, hexNumber_nil, ← hexValue?_eq_some]
  cases Letters.hexValue? a <;> cases Letters.hexValue? b <;> cases Letters.hexValue? c <;>
    cases Letters.hexValue? d <;> simp [eq_comm]
  omega

/-! ### Characters by their numbers -/

/-- What may follow `\u`, and the number it writes. -/
inductive CodeUnit : (spelling : Text) → (code : Nat) → Prop where
  | four {digits : Text} {code : Nat} (length : digits.length = 4)
      (number : HexNumber digits code) :
    CodeUnit digits code
  | braced {digits : Text} {code : Nat} (nonempty : digits ≠ []) (number : HexNumber digits code) :
    CodeUnit ('{' :: (digits ++ ['}'])) code

lemma braced?_cons {value count : Nat} (noBrace : c ≠ '}') :
    braced? value count (c :: rest) = (Letters.hexValue? c).bind fun digit =>
      if value * 16 + digit ≤ 0x10ffff then braced? (value * 16 + digit)
        (count + 1) rest else none := by
  rw [braced?]
  · cases Letters.hexValue? c <;> rfl
  · exact noBrace

lemma braced?_of_number {value count number : Nat} {digits rest : Text}
    (isNumber : HexNumber digits number) (small : value * 16 ^ digits.length + number ≤ 0x10ffff)
    (counted : 0 < count + digits.length) :
    braced? value count (digits ++ '}' :: rest) =
      some (value * 16 ^ digits.length + number, rest) := by
  induction digits generalizing value count number with
  | nil =>
    obtain rfl := hexNumber_nil.mp isNumber
    simp only [length_nil, Nat.add_zero] at counted
    simp [braced?, counted]
  | cons c digits ih =>
    obtain ⟨digit, later, isDigit, isLater, rfl⟩ := hexNumber_cons.mp isNumber
    have grown : value * 16 ^ (digits.length + 1) + (digit * 16 ^ digits.length + later) =
        (value * 16 + digit) * 16 ^ digits.length + later := by ring
    rw [length_cons, grown] at small ⊢
    have reached : value * 16 + digit ≤ 0x10ffff :=
      ((Nat.le_mul_of_pos_right _ (by positivity)).trans (Nat.le_add_right _ _)).trans small
    have noBrace : c ≠ '}' := by
      rintro rfl
      cases hexValue?_eq_some.mpr isDigit
    rw [cons_append, braced?_cons noBrace, hexValue?_eq_some.mpr isDigit, Option.bind_some,
      if_pos reached]
    exact ih isLater small (by omega)

lemma number_of_braced? {value count code : Nat} {text rest : Text}
    (found : braced? value count text = some (code, rest)) :
    ∃ digits number, text = digits ++ '}' :: rest ∧ HexNumber digits number ∧
      code = value * 16 ^ digits.length + number ∧ 0 < count + digits.length ∧
      (value ≤ 0x10ffff → code ≤ 0x10ffff) := by
  induction text generalizing value count with
  | nil => cases found
  | cons c text ih =>
    by_cases brace : c = '}'
    · subst brace
      rw [braced?] at found
      split at found
      · cases found
        exact ⟨[], 0, rfl, hexNumber_nil.mpr rfl, by simp, by simpa, id⟩
      · cases found
    · rw [braced?_cons brace] at found
      obtain ⟨digit, isDigit, found⟩ := Option.bind_eq_some_iff.mp found
      split at found
      · rename_i small
        obtain ⟨digits, number, rfl, isNumber, rfl, counted, bounded⟩ := ih found
        have whole := hexNumber_cons.mpr ⟨digit, number, hexValue?_eq_some.mp isDigit,
          isNumber, rfl⟩
        refine ⟨c :: digits, _, rfl, whole, ?_, ?_, fun _ => bounded small⟩
        · rw [length_cons]
          ring
        · rw [length_cons]
          omega
      · cases found

lemma codeUnit?_of_codeUnit {spelling rest : Text} (isUnit : CodeUnit spelling code)
    (small : code ≤ 0x10ffff) : codeUnit? (spelling ++ rest) = some (code, rest) := by
  cases isUnit with
  | four length number =>
    obtain ⟨a, b, c, d, rfl⟩ : ∃ a b c d, spelling = [a, b, c, d] := by
      rcases spelling with _ | ⟨a, _ | ⟨b, _ | ⟨c, _ | ⟨d, _ | _⟩⟩⟩⟩ <;> simp at length
      exact ⟨a, b, c, d, rfl⟩
    have noBrace : a ≠ '{' := by
      rintro rfl
      obtain ⟨_, _, isDigit, _⟩ := hexNumber_cons.mp number
      cases hexValue?_eq_some.mpr isDigit
    rw [cons_append, cons_append, cons_append, cons_append, nil_append, codeUnit?]
    · rw [hex4?_eq_some.mpr number]
      rfl
    · exact noBrace
  | @braced digits _ nonempty number =>
    have counted : 0 < 0 + digits.length := by
      rw [Nat.zero_add]
      exact length_pos_of_ne_nil nonempty
    have read : braced? 0 0 (digits ++ '}' :: rest) = some (0 * 16 ^ digits.length + code, rest) :=
      braced?_of_number number (by simpa using small) counted
    simpa [codeUnit?] using read

lemma codeUnit_of_codeUnit? {text rest : Text} (found : codeUnit? text = some (code, rest)) :
    ∃ spelling, text = spelling ++ rest ∧ CodeUnit spelling code ∧ code ≤ 0x10ffff := by
  unfold codeUnit? at found
  split at found
  · obtain ⟨digits, number, rfl, isNumber, rfl, counted, bounded⟩ := number_of_braced? found
    refine ⟨'{' :: (digits ++ ['}']), by simp, ?_, bounded (Nat.zero_le _)⟩
    rw [Nat.zero_mul, Nat.zero_add]
    exact .braced (length_pos_iff.mp (by omega)) isNumber
  · rename_i a b c d rest' _
    obtain ⟨value, isValue, same⟩ := Option.map_eq_some_iff.mp found
    cases same
    have number := hex4?_eq_some.mp isValue
    have small := number.lt
    refine ⟨[a, b, c, d], rfl, .four rfl number, ?_⟩
    simp only [length_cons, length_nil] at small
    omega
  · cases found

/-- What may follow `\u`, and the character it stands for. Characters are the Unicode scalar values,
so a surrogate counts only with its other half, and nothing above U+10FFFF counts. -/
inductive Denotes : (spelling : Text) → (c : Char) → Prop where
  | scalar {spelling : Text} {c : Char} (code : CodeUnit spelling c.toNat) : Denotes spelling c
  | pair {first second : Text} {high low : Nat} {c : Char}
      (highUnit : CodeUnit first (0xd800 + high))
    (high_lt : high < 0x400) (lowUnit : CodeUnit second (0xdc00 + low)) (low_lt : low < 0x400)
    (joined : c.toNat = 0x10000 + high * 0x400 + low) : Denotes (first ++ '\\' :: 'u' :: second) c

lemma isHighSurrogate_add {high : Nat} (small : high < 0x400) :
    isHighSurrogate (0xd800 + high) := by
  simp only [isHighSurrogate, Bool.and_eq_true, decide_eq_true_eq]
  omega

lemma isLowSurrogate_add {low : Nat} (small : low < 0x400) : isLowSurrogate (0xdc00 + low) := by
  simp only [isLowSurrogate, Bool.and_eq_true, decide_eq_true_eq]
  omega

lemma joinSurrogates_add (high low : Nat) :
    joinSurrogates (0xd800 + high) (0xdc00 + low) = 0x10000 + high * 0x400 + low := by
  unfold joinSurrogates
  omega

/-- No character is a surrogate. -/
lemma not_surrogate (c : Char) : ¬ isHighSurrogate c.toNat ∧ ¬ isLowSurrogate c.toNat := by
  have valid : c.toNat < 0xd800 ∨ 0xdfff < c.toNat ∧ c.toNat < 0x110000 := c.valid
  simp only [isHighSurrogate, isLowSurrogate, Bool.and_eq_true, decide_eq_true_eq]
  omega

lemma toNat_le (c : Char) : c.toNat ≤ 0x10ffff := by
  have valid : c.toNat < 0xd800 ∨ 0xdfff < c.toNat ∧ c.toNat < 0x110000 := c.valid
  omega

lemma toNat_ofNat (valid : code.isValidChar) : (Char.ofNat code).toNat = code := by
  rw [Char.toNat_ofNat, if_pos valid]

/-- A number that is no surrogate and not too large is that of a character. -/
lemma isValidChar_of_not_surrogate (high : ¬ isHighSurrogate code) (low : ¬ isLowSurrogate code)
    (small : code ≤ 0x10ffff) : code.isValidChar := by
  simp only [isHighSurrogate, isLowSurrogate, Bool.and_eq_true, decide_eq_true_eq] at high low
  unfold Nat.isValidChar
  omega

lemma unicode?_of_denotes {spelling rest : Text} (denotes : Denotes spelling c) :
    unicode? (spelling ++ rest) = some (c, rest) := by
  cases denotes with
  | scalar code =>
    obtain ⟨high, low⟩ := not_surrogate c
    simp only [unicode?, codeUnit?_of_codeUnit code (toNat_le c), if_neg high, if_neg low,
      Char.ofNat_toNat]
  | @pair first second high low c highUnit high_lt lowUnit low_lt joined =>
    have whole : joinSurrogates (0xd800 + high) (0xdc00 + low) = c.toNat :=
      (joinSurrogates_add high low).trans joined.symm
    simp only [unicode?, append_assoc, cons_append, codeUnit?_of_codeUnit highUnit (by omega),
      if_pos (isHighSurrogate_add high_lt), codeUnit?_of_codeUnit lowUnit (by omega),
      if_pos (isLowSurrogate_add low_lt), whole, Char.ofNat_toNat]

lemma denotes_of_unicode? {text rest : Text} (found : unicode? text = some (c, rest)) :
    ∃ spelling, text = spelling ++ rest ∧ Denotes spelling c := by
  unfold unicode? at found
  split at found
  · cases found
  · rename_i code tail first
    obtain ⟨spelling, rfl, unit, small⟩ := codeUnit_of_codeUnit? first
    split at found
    · rename_i isHigh
      split at found
      · rename_i tail'
        split at found
        · cases found
        · rename_i low tail'' second
          obtain ⟨spelling', rfl, unit', _⟩ := codeUnit_of_codeUnit? second
          split at found
          · rename_i isLow
            obtain ⟨rfl, rfl⟩ := Prod.mk.inj (Option.some.inj found)
            simp only [isHighSurrogate, isLowSurrogate, Bool.and_eq_true,
              decide_eq_true_eq] at isHigh isLow
            obtain ⟨high, rfl⟩ := Nat.exists_eq_add_of_le isHigh.1
            obtain ⟨low, rfl⟩ := Nat.exists_eq_add_of_le isLow.1
            refine ⟨spelling ++ '\\' :: 'u' :: spelling', by simp,
              .pair unit (by omega) unit' (by omega) ?_⟩
            rw [joinSurrogates_add]
            exact toNat_ofNat (.inr (by omega))
          · cases found
      · cases found
    · rename_i notHigh
      split at found
      · cases found
      · rename_i notLow
        cases found
        exact ⟨spelling, rfl, .scalar (by rwa
          [toNat_ofNat (isValidChar_of_not_surrogate notHigh notLow small)])⟩

/-! ### Escapes -/

/-- The letters that stand for a control character. -/
def controlLetters : List (Char × Char) :=
  [('n', '\n'), ('t', '\t'), ('r', '\r'), ('b', '\x08'), ('v', '\x0b'), ('f', '\x0c')]

/-- What may follow a backslash with `rest` behind it, and its value. A line that goes on adds
nothing; its end is one even if it takes two characters. -/
inductive Escape : (spelling value rest : Text) → Prop where
  | control {letter c : Char} {rest : Text} (listed : (letter, c) ∈ controlLetters) :
      Escape [letter] [c] rest
  | null {rest : Text} (alone : ∀ c ∈ rest.head?, ¬ c.isDigit) : Escape ['0'] ['\x00'] rest
  | byte {digits rest : Text} {c : Char} (two : digits.length = 2)
      (number : HexNumber digits c.toNat) :
    Escape ('x' :: digits) [c] rest
  | unicode {spelling rest : Text} {c : Char} (denotes : Denotes spelling c) :
      Escape ('u' :: spelling) [c] rest
  | lineEnd {c : Char} {rest : Text} (ends : isLineTerminator c)
      (alone : c = '\r' → rest.head? ≠ some '\n') :
    Escape [c] [] rest
  | lineEndTwo {rest : Text} : Escape ['\r', '\n'] [] rest
  | other {c : Char} {rest : Text} (noDigit : ¬ c.isDigit) (noNumber : c ≠ 'x' ∧ c ≠ 'u')
    (noControl : ∀ value, (c, value) ∉ controlLetters) (noEnd : ¬ isLineTerminator c) :
      Escape [c] [c] rest

lemma simpleEscape?_eq_some {letter c : Char} :
    simpleEscape? letter = some c ↔ (letter, c) ∈ controlLetters := by
  unfold simpleEscape? controlLetters
  split <;> simp_all [eq_comm]

lemma simpleEscape?_eq_none {letter : Char} :
    simpleEscape? letter = none ↔ ∀ c, (letter, c) ∉ controlLetters := by
  simp only [← simpleEscape?_eq_some, Option.eq_none_iff_forall_ne_some]

lemma head?_any_isDigit : ¬ rest.head?.any Char.isDigit ↔ ∀ c ∈ rest.head?, ¬ c.isDigit := by
  cases rest <;> simp

/-- One character after the backslash, which is no letter for a control character. -/
lemma escape?_single (noNumber : c ≠ 'x' ∧ c ≠ 'u') (noTwo : c = '\r' → rest.head? ≠ some '\n')
    (noControl : ∀ value, (c, value) ∉ controlLetters) :
    escape? (c :: rest) =
      if c = '0' ∧ ¬ (rest.head?.any Char.isDigit) then some (['\x00'], rest)
      else if c.isDigit ∨ c = 'x' then none
      else if c = '\r' ∨ c = '\n' ∨ c = '\u2028' ∨ c = '\u2029' then some ([], rest)
      else some ([c], rest) := by
  rw [escape?]
  · rw [simpleEscape?_eq_none.mpr noControl]
  · exact fun _ _ _ same _ => noNumber.1 same
  · exact noNumber.2
  · rintro later same rfl
    exact noTwo same rfl

lemma escape?_control {letter c : Char} (listed : (letter, c) ∈ controlLetters) :
    escape? (letter :: rest) = some ([c], rest) := by
  simp only [controlLetters, mem_cons, Prod.mk.injEq, not_mem_nil, or_false] at listed
  obtain ⟨rfl, rfl⟩ | ⟨rfl, rfl⟩ | ⟨rfl, rfl⟩ | ⟨rfl, rfl⟩ | ⟨rfl, rfl⟩ | ⟨rfl, rfl⟩ :=
    listed <;> rfl

lemma isLineTerminator_or :
    isLineTerminator c ↔ c = '\r' ∨ c = '\n' ∨ c = '\u2028' ∨ c = '\u2029' := by
  simp only [isLineTerminator, isLineEnd, Bool.or_eq_true, decide_eq_true_eq]
  tauto

lemma escape?_of_escape {spelling value rest : Text} (isEscape : Escape spelling value rest) :
    escape? (spelling ++ rest) = some (value, rest) := by
  cases isEscape with
  | control listed => exact escape?_control listed
  | null alone =>
    rw [singleton_append, escape?_single (by decide) (fun same => absurd same (by decide))
      (simpleEscape?_eq_none.mp rfl)]
    exact if_pos ⟨rfl, head?_any_isDigit.mpr alone⟩
  | @byte digits _ c two number =>
    obtain ⟨a, b, rfl⟩ := length_eq_two.mp two
    rw [cons_append, cons_append, cons_append, nil_append, escape?,
      hex2?_eq_some.mpr number, Option.map_some, Char.ofNat_toNat]
  | @unicode spelling _ c denotes =>
    rw [cons_append, escape?, unicode?_of_denotes denotes]
    rfl
  | @lineEnd c _ ends alone =>
    have isEnd := isLineTerminator_or.mp ends
    have plain : (c ≠ 'x' ∧ c ≠ 'u') ∧ simpleEscape? c = none ∧ c ≠ '0' ∧
        ¬ (c.isDigit ∨ c = 'x') := by
      rcases isEnd with rfl | rfl | rfl | rfl <;> decide
    obtain ⟨noNumber, noLetter, noZero, noDigit⟩ := plain
    rw [singleton_append, escape?_single noNumber alone (simpleEscape?_eq_none.mp noLetter),
      if_neg (fun both => noZero both.1), if_neg noDigit, if_pos isEnd]
  | lineEndTwo => rfl
  | @other c _ noDigit noNumber noControl noEnd =>
    have isEnd := isLineTerminator_or.not.mp noEnd
    have noZero : c ≠ '0' := by
      rintro rfl
      exact noDigit rfl
    rw [singleton_append, escape?_single noNumber (fun same => absurd (.inl same) isEnd) noControl,
      if_neg (fun both => noZero both.1), if_neg (by simp [noDigit, noNumber.1]), if_neg isEnd]

lemma escape_of_escape? {text value rest : Text} (found : escape? text = some (value, rest)) :
    ∃ spelling, text = spelling ++ rest ∧ Escape spelling value rest := by
  unfold escape? at found
  split at found
  · cases found
  · rename_i a b rest'
    obtain ⟨code, isCode, same⟩ := Option.map_eq_some_iff.mp found
    obtain ⟨rfl, rfl⟩ := Prod.mk.inj same
    have number := hex2?_eq_some.mp isCode
    have small : code < 256 := number.lt
    refine ⟨['x', a, b], rfl, .byte rfl ?_⟩
    rwa [toNat_ofNat (.inl (by omega))]
  · rename_i rest'
    obtain ⟨⟨c, rest''⟩, isChar, same⟩ := Option.map_eq_some_iff.mp found
    obtain ⟨rfl, rfl⟩ := Prod.mk.inj same
    obtain ⟨spelling, rfl, denotes⟩ := denotes_of_unicode? isChar
    exact ⟨'u' :: spelling, rfl, .unicode denotes⟩
  · obtain ⟨rfl, rfl⟩ := Prod.mk.inj (Option.some.inj found)
    exact ⟨['\r', '\n'], rfl, .lineEndTwo⟩
  · rename_i c rest' noByte noUnicode noTwo
    split at found
    · rename_i letter isLetter
      obtain ⟨rfl, rfl⟩ := Prod.mk.inj (Option.some.inj found)
      exact ⟨[c], rfl, .control (simpleEscape?_eq_some.mp isLetter)⟩
    · rename_i noLetter
      split at found
      · rename_i isNull
        obtain ⟨rfl, rfl⟩ := Prod.mk.inj (Option.some.inj found)
        obtain ⟨rfl, alone⟩ := isNull
        exact ⟨['0'], rfl, .null (head?_any_isDigit.mp alone)⟩
      · split at found
        · cases found
        · rename_i plain
          split at found
          · rename_i isEnd
            obtain ⟨rfl, rfl⟩ := Prod.mk.inj (Option.some.inj found)
            refine ⟨[c], rfl, .lineEnd (isLineTerminator_or.mpr isEnd) ?_⟩
            intro same first
            obtain ⟨later, rfl⟩ := head?_eq_some_iff.mp first
            exact noTwo later same rfl
          · rename_i noEnd
            obtain ⟨rfl, rfl⟩ := Prod.mk.inj (Option.some.inj found)
            exact ⟨[c], rfl, .other (fun isDigit => plain (.inl isDigit))
              ⟨fun same => plain (.inr same), noUnicode⟩
              (simpleEscape?_eq_none.mp noLetter) (isLineTerminator_or.not.mpr noEnd)⟩

/-- The body can be cut into plain characters and escapes whose values make up `value`. -/
inductive Spells : (body value : Text) → Prop where
  | nil : Spells [] []
  | plain {c : Char} {body value : Text} (noBackslash : c ≠ '\\') (later : Spells body value) :
    Spells (c :: body) (c :: value)
  | escape {spelling first body value : Text} (isEscape : Escape spelling first body)
      (later : Spells body value) :
    Spells ('\\' :: (spelling ++ body)) (first ++ value)

lemma cook?_eq_some {body value : Text} : cook? body = some value ↔ Spells body value := by
  constructor
  · intro cooked
    fun_induction cook? body generalizing value with
    | case1 =>
      cases cooked
      exact .nil
    | case2 => cases cooked
    | case3 rest first rest' isEscape ih =>
      obtain ⟨later, isLater, rfl⟩ := Option.map_eq_some_iff.mp cooked
      obtain ⟨spelling, rfl, cut⟩ := escape_of_escape? isEscape
      exact .escape cut (ih isLater)
    | case4 c rest noBackslash ih =>
      obtain ⟨later, isLater, rfl⟩ := Option.map_eq_some_iff.mp cooked
      exact .plain noBackslash (ih isLater)
  · intro spells
    induction spells with
    | nil => rw [cook?]
    | plain noBackslash _ ih =>
      rw [cook?]
      · rw [ih]
        rfl
      · exact noBackslash
    | escape isEscape _ ih =>
      rw [cook?]
      split
      · rename_i none
        cases none.symm.trans (escape?_of_escape isEscape)
      · rename_i some
        cases some.symm.trans (escape?_of_escape isEscape)
        rw [ih]
        rfl

end PatternLowering.Cooked

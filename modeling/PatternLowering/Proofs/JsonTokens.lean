import Mathlib.Data.List.Basic
import PatternLowering.Json.Reader

/-!
# The tokens of strict JSON

The lexical rules of JSON as a relation between texts and rows of tokens. A string counts by its
value, a row of UTF-16 units, so that surrogates need not pair; a number or one of the three names
counts by its spelling. A text has at most one row of tokens.
-/

namespace PatternLowering.Json

open List

/-! ### Words -/

def IsDigits (text : Text) : Prop := text ≠ [] ∧ ∀ c ∈ text, c.isDigit

/-- A number: a sign, a whole part without a needless zero in front, a fraction and a power of
ten. -/
inductive IsNumber : Text → Prop
  | mk {sign whole fraction power : Text} (isSign : sign = [] ∨ sign = ['-'])
      (isWhole : IsDigits whole) (needed : whole.head? = some '0' → whole = ['0'])
      (isFraction : fraction = [] ∨ ∃ digits, fraction = '.' :: digits ∧ IsDigits digits)
      (isPower : power = [] ∨ ∃ e sign digits, power = e :: sign ++ digits ∧ (e = 'e' ∨ e = 'E') ∧
        (sign = [] ∨ sign = ['+'] ∨ sign = ['-']) ∧ IsDigits digits) :
      IsNumber (sign ++ whole ++ fraction ++ power)

def IsWord (text : Text) : Prop :=
  text = "null".toList ∨ text = "true".toList ∨ text = "false".toList ∨ IsNumber text

/-- The characters of words. -/
def isWordChar (c : Char) : Bool := c.isAlphanum || c == '+' || c == '-' || c == '.'

lemma IsDigits.all_isWordChar {text : Text} (digits : IsDigits text) :
    ∀ c ∈ text, isWordChar c := fun c mem => by
  simp [isWordChar, Char.isAlphanum, digits.2 c mem]

lemma IsNumber.all_isWordChar {text : Text} (number : IsNumber text) :
    ∀ c ∈ text, isWordChar c := by
  obtain ⟨isSign, isWhole, -, isFraction, isPower⟩ := number
  simp only [forall_mem_append]
  refine ⟨⟨⟨?_, isWhole.all_isWordChar⟩, ?_⟩, ?_⟩
  · rcases isSign with rfl | rfl <;> exact all_eq_true.mp rfl
  · rcases isFraction with rfl | ⟨digits, rfl, isDigits⟩
    · simp
    · exact forall_mem_cons.mpr ⟨by decide, isDigits.all_isWordChar⟩
  · rcases isPower with rfl | ⟨e, sign, digits, rfl, isE, isSign, isDigits⟩
    · simp
    · refine forall_mem_cons.mpr ⟨?_, forall_mem_append.mpr ⟨?_, isDigits.all_isWordChar⟩⟩
      · rcases isE with rfl | rfl <;> decide
      · rcases isSign with rfl | rfl | rfl <;> exact all_eq_true.mp rfl

lemma IsWord.all_isWordChar {text : Text} (isWord : IsWord text) : ∀ c ∈ text, isWordChar c := by
  rcases isWord with rfl | rfl | rfl | number
  · exact all_eq_true.mp rfl
  · exact all_eq_true.mp rfl
  · exact all_eq_true.mp rfl
  · exact number.all_isWordChar

lemma IsWord.exists_cons {text : Text} (isWord : IsWord text) :
    ∃ c rest, text = c :: rest ∧ isWordChar c := by
  have some : text ≠ [] := by
    rcases isWord with rfl | rfl | rfl | ⟨-, isWhole, -, -, -⟩
    · decide
    · decide
    · decide
    · simp [isWhole.1]
  obtain ⟨c, rest, rfl⟩ := exists_cons_of_ne_nil some
  exact ⟨c, rest, rfl, isWord.all_isWordChar c (by simp)⟩

/-! ### Strings -/

/-- The UTF-16 units of a character. -/
def utf16 (c : Char) : List Nat :=
  if c.toNat < 0x10000 then [c.toNat]
  else [0xd800 + (c.toNat - 0x10000) / 0x400, 0xdc00 + (c.toNat - 0x10000) % 0x400]

/-- A piece of a string: a character, one with a backslash before it, or four digits that tell a
unit. -/
inductive Part where
  | plain (c : Char)
  | escape (c : Char)
  | unit (a b c d : Char)
deriving DecidableEq, Repr

namespace Part

def text : Part → Text
  | plain c => [c]
  | escape c => ['\\', c]
  | unit a b c d => ['\\', 'u', a, b, c, d]

def units : Part → List Nat
  | plain c => utf16 c
  | escape c => utf16 ((Reader.escaped? c).getD c)
  | unit a b c d =>
    [[a, b, c, d].foldl (fun n digit => 16 * n + (Letters.hexValue? digit).getD 0) 0]

/-- The piece may stand between two of the quotation marks. A single one may be escaped between
single ones. -/
def fits (mark : Char) : Part → Bool
  | plain c => ' ' ≤ c && c != mark && c != '\\'
  | escape c => (Reader.escaped? c).isSome || (c == '\'' && mark == '\'')
  | unit a b c d => [a, b, c, d].all Letters.isHexDigit

end Part

/-- The pieces of a string between its quotation marks. -/
def body (parts : List Part) : Text := parts.flatMap Part.text

def units (parts : List Part) : List Nat := parts.flatMap Part.units

@[simp] lemma body_nil : body [] = [] := rfl

@[simp] lemma body_cons (p : Part) (parts : List Part) :
    body (p :: parts) = p.text ++ body parts := rfl

namespace Part

lemma ne_of_fits_plain {mark c : Char} (fits : (plain c).fits mark) : c ≠ mark ∧ c ≠ '\\' := by
  simp only [Part.fits, Bool.and_eq_true, bne_iff_ne] at fits
  exact ⟨fits.1.2, fits.2⟩

lemma ne_of_fits_escape {mark c : Char} (fits : (escape c).fits mark) : c ≠ 'u' := by
  rintro rfl
  simp [Part.fits, Reader.escaped?] at fits

lemma text_append_ne {p : Part} (fits : p.fits '"') (rest rest' : Text) :
    p.text ++ rest ≠ '"' :: rest' := by
  intro same
  cases p with
  | plain c => exact (ne_of_fits_plain fits).1 (List.cons.inj same).1
  | escape c => cases (List.cons.inj same).1
  | unit a b c d => cases (List.cons.inj same).1

lemma text_append_inj {p p' : Part} {rest rest' : Text} (fits : p.fits '"') (fits' : p'.fits '"')
    (same : p.text ++ rest = p'.text ++ rest') : p = p' ∧ rest = rest' := by
  cases p <;> cases p' <;> simp only [text, cons_append, nil_append, List.cons.injEq] at same
  · exact ⟨congrArg plain same.1, same.2⟩
  · exact absurd same.1 (ne_of_fits_plain fits).2
  · exact absurd same.1 (ne_of_fits_plain fits).2
  · exact absurd same.1.symm (ne_of_fits_plain fits').2
  · exact ⟨congrArg escape same.2.1, same.2.2⟩
  · exact absurd same.2.1 (ne_of_fits_escape fits)
  · exact absurd same.1.symm (ne_of_fits_plain fits').2
  · exact absurd same.2.1.symm (ne_of_fits_escape fits')
  · obtain ⟨-, -, rfl, rfl, rfl, rfl, rfl⟩ := same
    exact ⟨rfl, rfl⟩

end Part

/-- A string is cut into pieces in one way only, and so it ends in one place. -/
lemma body_inj {parts parts' : List Part} {rest rest' : Text} (fit : ∀ p ∈ parts, p.fits '"')
    (fit' : ∀ p ∈ parts', p.fits '"')
    (same : body parts ++ '"' :: rest = body parts' ++ '"' :: rest') :
    parts = parts' ∧ rest = rest' := by
  induction parts generalizing parts' with
  | nil =>
    cases parts' with
    | nil => exact ⟨rfl, (List.cons.inj same).2⟩
    | cons p parts' =>
      rw [body_cons, append_assoc] at same
      exact absurd same.symm (Part.text_append_ne (fit' p (by simp)) _ _)
  | cons p parts ih =>
    obtain ⟨fits, others⟩ := forall_mem_cons.mp fit
    rw [body_cons, append_assoc] at same
    cases parts' with
    | nil => exact absurd same (Part.text_append_ne fits _ _)
    | cons p' parts' =>
      obtain ⟨fits', others'⟩ := forall_mem_cons.mp fit'
      rw [body_cons, append_assoc] at same
      obtain ⟨rfl, later⟩ := Part.text_append_inj fits fits' same
      obtain ⟨rfl, rfl⟩ := ih others others' later
      exact ⟨rfl, rfl⟩

/-! ### Tokens -/

/-- The signs of punctuation. -/
inductive Sign where
  | openBrace
  | closeBrace
  | openBracket
  | closeBracket
  | colon
  | comma
deriving DecidableEq, Repr

namespace Sign

def char : Sign → Char
  | openBrace => '{'
  | closeBrace => '}'
  | openBracket => '['
  | closeBracket => ']'
  | colon => ':'
  | comma => ','

def opens : Sign → Bool
  | openBrace => true
  | openBracket => true
  | _ => false

def closes : Sign → Bool
  | closeBrace => true
  | closeBracket => true
  | _ => false

lemma closes_of_opens {s : Sign} : s.opens → s.closes = false := by
  cases s <;> decide

lemma char_inj {s s' : Sign} (same : s.char = s'.char) : s = s' := by
  revert same
  cases s <;> cases s' <;> decide

end Sign

inductive Token where
  | sign (s : Sign)
  | string (units : List Nat)
  | word (text : Text)
deriving DecidableEq, Repr

/-- The text has the tokens, with blanks around them. Words do not touch. -/
inductive Tokens : Text → List Token → Prop
  | done : Tokens [] []
  | blank {c : Char} {rest : Text} {tokens : List Token} (isBlank : Reader.isBlank c)
      (later : Tokens rest tokens) : Tokens (c :: rest) tokens
  | sign {s : Sign} {rest : Text} {tokens : List Token} (later : Tokens rest tokens) :
      Tokens (s.char :: rest) (.sign s :: tokens)
  | string {parts : List Part} {rest : Text} {tokens : List Token} (fit : ∀ p ∈ parts, p.fits '"')
      (later : Tokens rest tokens) : Tokens ('"' :: body parts ++ '"' :: rest)
        (.string (units parts) :: tokens)
  | word {text rest : Text} {tokens : List Token} (isWord : IsWord text)
      (stop : ∀ c ∈ rest.head?, isWordChar c = false) (later : Tokens rest tokens) :
      Tokens (text ++ rest) (.word text :: tokens)

lemma isWordChar_of_isBlank {c : Char} (isBlank : Reader.isBlank c) : isWordChar c = false := by
  simp only [Reader.isBlank, Bool.or_eq_true, beq_iff_eq] at isBlank
  rcases isBlank with ((rfl | rfl) | rfl) | rfl <;> decide

lemma isWordChar_char (s : Sign) : isWordChar s.char = false := by
  cases s <;> decide

lemma isBlank_char (s : Sign) : Reader.isBlank s.char = false := by
  cases s <;> decide

/-- Two words that stop at the same text are the same. -/
lemma word_append_inj {word word' rest rest' : Text} (inside : ∀ c ∈ word, isWordChar c)
    (inside' : ∀ c ∈ word', isWordChar c) (stop : ∀ c ∈ rest.head?, isWordChar c = false)
    (stop' : ∀ c ∈ rest'.head?, isWordChar c = false) (same : word ++ rest = word' ++ rest') :
    word = word' ∧ rest = rest' := by
  have longest {word rest : Text} (inside : ∀ c ∈ word, isWordChar c)
      (stop : ∀ c ∈ rest.head?, isWordChar c = false) :
        (word ++ rest).takeWhile isWordChar = word := by
    rw [takeWhile_append_of_pos inside]
    cases rest with
    | nil => simp
    | cons c rest => rw [takeWhile_cons_of_neg (by simp [stop c rfl]), append_nil]
  have words : word = word' := by rw [← longest inside stop, same, longest inside' stop']
  subst words
  exact ⟨rfl, append_cancel_left same⟩

namespace Tokens

variable {c : Char} {s : Sign} {text rest : Text} {tokens : List Token}

lemma of_blank (isBlank : Reader.isBlank c) (has : Tokens (c :: rest) tokens) :
    Tokens rest tokens := by
  generalize whole : c :: rest = text at has
  cases has with
  | done => cases whole
  | blank _ later => cases whole; exact later
  | @sign s => cases whole; simp [isBlank_char] at isBlank
  | string => cases whole; cases isBlank
  | word isWord =>
    obtain ⟨first, _, rfl, inWord⟩ := isWord.exists_cons
    cases whole
    simp [isWordChar_of_isBlank isBlank] at inWord

lemma of_sign (has : Tokens (s.char :: rest) tokens) :
    ∃ later, tokens = .sign s :: later ∧ Tokens rest later := by
  generalize whole : s.char :: rest = text at has
  cases has with
  | done => cases whole
  | blank isBlank =>
    obtain ⟨rfl, rfl⟩ := List.cons.inj whole
    simp [isBlank_char] at isBlank
  | @sign s' _ _ later =>
    obtain ⟨same, rfl⟩ := List.cons.inj whole
    obtain rfl := Sign.char_inj same
    exact ⟨_, rfl, later⟩
  | string =>
    have := (List.cons.inj whole).1
    cases s <;> cases this
  | word isWord =>
    obtain ⟨first, _, rfl, inWord⟩ := isWord.exists_cons
    rw [← (List.cons.inj whole).1, isWordChar_char] at inWord
    cases inWord

lemma of_string {parts : List Part} (fit : ∀ p ∈ parts, p.fits '"')
    (has : Tokens ('"' :: body parts ++ '"' :: rest) tokens) :
    ∃ later, tokens = .string (units parts) :: later ∧ Tokens rest later := by
  generalize whole : '"' :: body parts ++ '"' :: rest = text at has
  cases has with
  | done => cases whole
  | blank isBlank =>
    obtain ⟨rfl, rfl⟩ := List.cons.inj whole
    cases isBlank
  | @sign s =>
    have := (List.cons.inj whole).1
    cases s <;> cases this
  | string fit' later =>
    obtain ⟨rfl, rfl⟩ := body_inj fit fit' (List.cons.inj whole).2
    exact ⟨_, rfl, later⟩
  | word isWord =>
    obtain ⟨first, _, rfl, inWord⟩ := isWord.exists_cons
    rw [← (List.cons.inj whole).1] at inWord
    cases inWord

lemma of_word (isWord : IsWord text) (stop : ∀ c ∈ rest.head?, isWordChar c = false)
    (has : Tokens (text ++ rest) tokens) :
    ∃ later, tokens = .word text :: later ∧ Tokens rest later := by
  obtain ⟨first, more, rfl, inWord⟩ := isWord.exists_cons
  generalize whole : first :: more ++ rest = text at has
  cases has with
  | done => cases whole
  | blank isBlank =>
    obtain ⟨rfl, rfl⟩ := List.cons.inj whole
    simp [isWordChar_of_isBlank isBlank] at inWord
  | @sign s =>
    rw [(List.cons.inj whole).1, isWordChar_char] at inWord
    cases inWord
  | string =>
    rw [(List.cons.inj whole).1] at inWord
    cases inWord
  | word isWord' stop' later =>
    obtain ⟨rfl, rfl⟩ := word_append_inj isWord.all_isWordChar isWord'.all_isWordChar
      stop stop' whole
    exact ⟨_, rfl, later⟩

/-- The lexical rules are unambiguous. -/
lemma unique {tokens' : List Token} (has : Tokens text tokens) (has' : Tokens text tokens') :
    tokens = tokens' := by
  induction has generalizing tokens' with
  | done =>
    generalize whole : ([] : Text) = text at has'
    cases has' with
    | done => rfl
    | word isWord =>
      obtain ⟨_, _, rfl, -⟩ := isWord.exists_cons
      cases whole
    | _ => cases whole
  | blank isBlank _ ih => exact ih (has'.of_blank isBlank)
  | sign _ ih =>
    obtain ⟨_, rfl, later⟩ := has'.of_sign
    rw [ih later]
  | string fit _ ih =>
    obtain ⟨_, rfl, later⟩ := has'.of_string fit
    rw [ih later]
  | word isWord stop _ ih =>
    obtain ⟨_, rfl, later⟩ := has'.of_word isWord stop
    rw [ih later]

/-- A text that does not start with a word does not start with a character of one. -/
lemma head_not_isWordChar (has : Tokens text tokens)
    (other : ∀ word, tokens.head? ≠ some (.word word)) :
    ∀ c ∈ text.head?, isWordChar c = false := by
  cases has with
  | done => simp
  | blank isBlank => simpa using isWordChar_of_isBlank isBlank
  | sign => simpa using isWordChar_char _
  | string => simp; decide
  | @word word => exact absurd rfl (other word)

lemma append_blanks {blanks : Text} (isBlank : ∀ c ∈ blanks, Reader.isBlank c)
    (has : Tokens rest tokens) : Tokens (blanks ++ rest) tokens := by
  induction blanks with
  | nil => exact has
  | cons c blanks ih =>
    obtain ⟨first, others⟩ := forall_mem_cons.mp isBlank
    exact .blank first (ih others)

end Tokens

end PatternLowering.Json

import Mathlib
import PatternLowering.Json.Relaxed
import PatternLowering.Proofs.JsonTokens

/-!
# Relaxed JSON

A document is written with gaps of blanks and comments between its tokens, a comma before a closing
bracket if one likes, and strings in quotation marks of either kind. The strict form has the tokens
of the document without these commas, and its strings have the same values. A text that is strict
already stays as it is. -/

namespace PatternLowering.Json

open List

variable {c mark : Char} {rest : Text} {p : Pending}

/-! ### The pass on single characters -/

lemma strictFrom_cons (other : c ≠ '/') : strictFrom .plain p (c :: rest) =
    if c = '"' ∨ c = '\'' then p.keep ++ '"' :: strictFrom (.quoted c) none rest
    else if c = ',' then p.keep ++ strictFrom .plain (some []) rest
    else if c = '}' ∨ c = ']' then p.discard ++ c :: strictFrom .plain none rest
    else if Letters.isBlank c then (p.blank c).1 ++ strictFrom .plain (p.blank c).2 rest
    else p.keep ++ c :: strictFrom .plain none rest := by
  rw [strictFrom]
  · exact fun _ slash => absurd slash other
  · exact fun _ slash => absurd slash other

/-- A character that makes up values: a comma before it stays, and it is copied. -/
def isSolid (c : Char) : Bool :=
  c != '/' && c != '"' && c != '\'' && c != ',' && c != '}' && c != ']' && !Letters.isBlank c

lemma strictFrom_solid (solid : isSolid c) :
    strictFrom .plain p (c :: rest) = p.keep ++ c :: strictFrom .plain none rest := by
  simp only [isSolid, Bool.and_eq_true, bne_iff_ne, Bool.not_eq_true'] at solid
  simp [strictFrom_cons, solid]

lemma strictFrom_mark (isMark : mark = '"' ∨ mark = '\'') :
    strictFrom .plain p (mark :: rest) = p.keep ++ '"' :: strictFrom (.quoted mark) none rest := by
  rw [strictFrom_cons (by rcases isMark with rfl | rfl <;> decide), if_pos isMark]

lemma strictFrom_comma :
    strictFrom .plain p (',' :: rest) = p.keep ++ strictFrom .plain (some []) rest := by
  rw [strictFrom_cons (by decide)]
  simp

lemma strictFrom_closing {s : Sign} (closes : s.closes) :
    strictFrom .plain p (s.char :: rest) = p.discard ++ s.char :: strictFrom .plain none rest := by
  cases s with
  | closeBrace => rw [strictFrom_cons (by decide)]; simp [Sign.char]
  | closeBracket => rw [strictFrom_cons (by decide)]; simp [Sign.char]
  | _ => cases closes

lemma isBlank_of_isBlank (isBlank : Reader.isBlank c) : Letters.isBlank c := by
  simp only [Reader.isBlank, Bool.or_eq_true, beq_iff_eq] at isBlank
  rcases isBlank with ((rfl | rfl) | rfl) | rfl <;> decide

lemma strictFrom_blank (isBlank : Reader.isBlank c) :
    strictFrom .plain p (c :: rest) = (p.blank c).1 ++ strictFrom .plain (p.blank c).2 rest := by
  have wide := isBlank_of_isBlank isBlank
  simp only [Reader.isBlank, Bool.or_eq_true, beq_iff_eq] at isBlank
  rcases isBlank with ((rfl | rfl) | rfl) | rfl <;> rw [strictFrom_cons (by decide)] <;> simp [wide]

lemma toNat_of_isWordChar (inWord : isWordChar c) : 43 ≤ c.toNat ∧ c.toNat ≤ 122 := by
  have code : c.val.toNat = c.toNat := rfl
  simp only [isWordChar, Char.isAlphanum, Char.isAlpha, Char.isUpper, Char.isLower, Char.isDigit,
    Bool.or_eq_true,
    Bool.and_eq_true, decide_eq_true_eq, beq_iff_eq, ge_iff_le, UInt32.le_iff_toNat_le,
    code] at inWord
  rcases inWord with ((((⟨low, high⟩ | ⟨low, high⟩) | ⟨low, high⟩) | rfl) | rfl) | rfl
  · exact ⟨Nat.le_trans (by decide) low, Nat.le_trans high (by decide)⟩
  · exact ⟨Nat.le_trans (by decide) low, Nat.le_trans high (by decide)⟩
  · exact ⟨Nat.le_trans (by decide) low, Nat.le_trans high (by decide)⟩
  all_goals decide

lemma isSolid_of_isWordChar (inWord : isWordChar c) : isSolid c := by
  have ne {d : Char} (outside : isWordChar d = false) : (c != d) = true :=
    bne_iff_ne.mpr fun same => by simp [same, outside] at inWord
  have visible : Letters.isBlank c = false := by
    obtain ⟨low, high⟩ := toNat_of_isWordChar inWord
    simp only [Letters.isBlank, Ranges.holds, Ranges.blank, any_cons, any_nil, Bool.or_false,
      Bool.or_eq_false_iff, Bool.and_eq_false_iff, decide_eq_false_iff_not]
    omega
  simp only [isSolid, visible, ne (d := '/') rfl, ne (d := '"') rfl, ne (d := '\'') rfl,
    ne (d := ',') rfl, ne (d := '}') rfl, ne (d := ']') rfl, Bool.not_false, Bool.and_self]

lemma isSolid_of_opens {s : Sign} : s.opens → isSolid s.char := by
  cases s <;> decide

lemma strictFrom_word {word : Text} (isWord : IsWord word) :
    strictFrom .plain p (word ++ rest) = p.keep ++ (word ++ strictFrom .plain none rest) := by
  have copied {chars : Text} (inside : ∀ c ∈ chars, isWordChar c) :
      strictFrom .plain none (chars ++ rest) = chars ++ strictFrom .plain none rest := by
    induction chars with
    | nil => rfl
    | cons c chars ih =>
      obtain ⟨first, others⟩ := forall_mem_cons.mp inside
      rw [cons_append, strictFrom_solid (isSolid_of_isWordChar first), ih others]
      rfl
  have inside := isWord.all_isWordChar
  obtain ⟨c, more, rfl, inWord⟩ := isWord.exists_cons
  rw [cons_append, strictFrom_solid (isSolid_of_isWordChar inWord),
    copied (forall_mem_cons.mp inside).2]
  rfl

/-! ### Gaps -/

/-- A blank or a comment. -/
inductive Piece where
  | blank (c : Char) (isBlank : Reader.isBlank c)
  | lineComment (body : Text) (inLine : '\n' ∉ body)
  | blockComment (body : Text) (inside : ¬ ['*', '/'] <:+: body)

namespace Piece

def text : Piece → Text
  | blank c _ => [c]
  | lineComment body _ => '/' :: '/' :: body ++ ['\n']
  | blockComment body _ => '/' :: '*' :: body ++ ['*', '/']

/-- What the strict form keeps of a piece: a blank and the line feeds of a comment. -/
def left : Piece → Text
  | blank c _ => [c]
  | lineComment _ _ => ['\n']
  | blockComment body _ => body.filter (· = '\n')

lemma isBlank_left (piece : Piece) : ∀ c ∈ piece.left, Reader.isBlank c := by
  cases piece with
  | blank c isBlank => simpa [left] using isBlank
  | lineComment body inLine => simp [left, Reader.isBlank]
  | blockComment body inside =>
    intro c mem
    obtain ⟨-, feed⟩ := mem_filter.mp mem
    rw [of_decide_eq_true feed]
    rfl

end Piece

/-- Adds blanks: at once, or after the comma that is still waiting. -/
def Pending.pass (p : Pending) (blanks : Text) : Text × Pending :=
  match p with
  | none => (blanks, none)
  | some before => ([], some (before ++ blanks))

lemma Pending.blank_eq_pass (p : Pending) (c : Char) : p.blank c = p.pass [c] := by
  cases p <;> rfl

/-- The pass turns the gap into blanks. -/
def Leaves (gap blanks : Text) : Prop := ∀ (p : Pending) (rest : Text),
  strictFrom .plain p (gap ++ rest) = (p.pass blanks).1 ++ strictFrom .plain (p.pass blanks).2 rest

namespace Leaves

lemma nil : Leaves [] [] := fun p rest => by
  cases p <;> simp [Pending.pass]

lemma append {gap gap' blanks blanks' : Text} (first : Leaves gap blanks)
    (second : Leaves gap' blanks') : Leaves (gap ++ gap') (blanks ++ blanks') := fun p rest => by
  rw [append_assoc, first, second]
  cases p <;> simp [Pending.pass]

lemma lineComment {body : Text} (inLine : '\n' ∉ body) :
    Leaves ('/' :: '/' :: body ++ ['\n']) ['\n'] := by
  intro p rest
  have inside : strictFrom .lineComment p (body ++ '\n' :: rest) =
      (p.pass ['\n']).1 ++ strictFrom .plain (p.pass ['\n']).2 rest := by
    induction body with
    | nil => simp [strictFrom, Pending.blank_eq_pass]
    | cons c body ih =>
      simp only [mem_cons, not_or] at inLine
      rw [cons_append, strictFrom, if_neg (Ne.symm inLine.1), ih inLine.2]
  simpa [strictFrom] using inside

/-- A star right before the rest of a comment may end it. -/
lemma strictFrom_blockComment {body : Text} {star : Bool} (p : Pending) (rest : Text)
    (inside : ¬ ['*', '/'] <:+: (if star then '*' :: body else body)) :
    strictFrom (.blockComment star) p (body ++ '*' :: '/' :: rest) =
      (p.pass (body.filter (· = '\n'))).1 ++ strictFrom .plain
        (p.pass (body.filter (· = '\n'))).2 rest := by
  induction body generalizing star p with
  | nil => cases p <;> simp [strictFrom, Pending.pass]
  | cons c body ih =>
    have later : ¬ ['*', '/'] <:+: c :: body := fun found => inside <| by
      cases star
      · exact found
      · exact found.trans (suffix_cons ..).isInfix
    have shorter :
        ¬ ['*', '/'] <:+: body := fun found => later (found.trans (suffix_cons ..).isInfix)
    have stays : ¬ (star ∧ c = '/') := fun ⟨isStar, slash⟩ => inside <| by
      rw [if_pos isStar, slash]
      exact ⟨[], body, rfl⟩
    rw [cons_append, strictFrom, if_neg stays]
    by_cases feed : c = '\n'
    · subst feed
      have next : strictFrom (.blockComment false) _ (body ++ '*' :: '/' :: rest) = _ :=
        ih (p.blank '\n').2 (by simpa using shorter)
      rw [if_pos rfl, next]
      cases p <;> simp [Pending.pass, Pending.blank]
    · rw [if_neg feed, filter_cons_of_neg (by simpa using feed)]
      refine ih p ?_
      by_cases isStar : c = '*'
      · simpa [isStar] using later
      · simpa [isStar] using shorter

lemma piece (piece : Piece) : Leaves piece.text piece.left := by
  cases piece with
  | blank c isBlank =>
    intro p rest
    rw [Piece.text, Piece.left, singleton_append, strictFrom_blank isBlank, Pending.blank_eq_pass]
  | lineComment body inLine => exact lineComment inLine
  | blockComment body inside =>
    intro p rest
    have comment : strictFrom (.blockComment false) p (body ++ '*' :: '/' :: rest) = _ :=
      strictFrom_blockComment p rest (by simpa using inside)
    simpa [Piece.text, Piece.left, strictFrom] using comment

lemma gap (pieces : List Piece) :
    Leaves (pieces.flatMap Piece.text) (pieces.flatMap Piece.left) := by
  induction pieces with
  | nil => exact nil
  | cons first later ih => exact (piece first).append ih

end Leaves

lemma isBlank_gap (pieces : List Piece) :
    ∀ c ∈ pieces.flatMap Piece.left, Reader.isBlank c := fun c mem => by
  obtain ⟨piece, -, mem⟩ := mem_flatMap.mp mem
  exact piece.isBlank_left c mem

/-! ### Strings -/

/-- The same piece for use between double quotation marks. -/
def Part.requoted : Part → Part
  | plain c => if c = '"' then .escape '"' else .plain c
  | escape c => if c = '\'' then .plain '\'' else .escape c
  | unit a b c d => .unit a b c d

namespace Part

variable {part : Part}

lemma fits_requoted (fits : part.fits mark) : part.requoted.fits '"' := by
  cases part with
  | plain c =>
    by_cases double : c = '"'
    · simp [requoted, double, Part.fits, Reader.escaped?]
    · simp_all [requoted, Part.fits]
  | escape c =>
    by_cases single : c = '\''
    · simp [requoted, single, Part.fits]
    · simp_all [requoted, Part.fits]
  | unit a b c d => exact fits

lemma units_requoted (part : Part) : part.requoted.units = part.units := by
  cases part with
  | plain c =>
    by_cases double : c = '"'
    · simp [requoted, double, Part.units, Reader.escaped?]
    · simp [requoted, double]
  | escape c =>
    by_cases single : c = '\''
    · simp [requoted, single, Part.units, Reader.escaped?]
    · simp [requoted, single]
  | unit a b c d => rfl

/-- Between double quotation marks nothing changes. -/
lemma requoted_eq (fits : part.fits '"') : part.requoted = part := by
  cases part with
  | plain c => simp [requoted, (ne_of_fits_plain fits).1]
  | escape c =>
    have other : c ≠ '\'' := by
      rintro rfl
      simp [Part.fits, Reader.escaped?] at fits
    simp [requoted, other]
  | unit a b c d => rfl

lemma strictFrom_quoted (isMark : mark = '"' ∨ mark = '\'') (fits : part.fits mark) (rest : Text) :
    strictFrom (.quoted mark) none (part.text ++ rest) =
      part.requoted.text ++ strictFrom (.quoted mark) none rest := by
  have copied {c : Char} (rest : Text) (other : c ≠ mark) (plain : c ≠ '\\') :
      strictFrom (.quoted mark) none (c :: rest) =
        (if c = '"' then ['\\', c] else [c]) ++ strictFrom (.quoted mark) none rest := by
    rw [strictFrom, if_neg other]
    · split <;> rfl
    · exact fun backslash => absurd backslash plain
    · exact fun _ _ backslash => absurd backslash plain
  cases part with
  | plain c =>
    obtain ⟨other, plain⟩ := ne_of_fits_plain fits
    rw [text, singleton_append, copied rest other plain]
    by_cases double : c = '"' <;> simp [requoted, double, text]
  | escape c =>
    by_cases single : c = '\'' <;> simp [requoted, single, text, strictFrom]
  | unit a b c d =>
    have digit {x : Char} (rest : Text) (isHex : Letters.isHexDigit x) :
        strictFrom (.quoted mark) none (x :: rest) = x :: strictFrom (.quoted mark) none rest := by
      have ne {d : Char} (outside : Letters.isHexDigit d = false) : x ≠ d := fun same => by
        simp [same, outside] at isHex
      have other : x ≠ mark := by
        rcases isMark with rfl | rfl
        · exact ne rfl
        · exact ne rfl
      rw [copied rest other (ne rfl), if_neg (ne rfl)]
      rfl
    simp only [Part.fits, all_cons, all_nil, Bool.and_true, Bool.and_eq_true] at fits
    obtain ⟨isHexA, isHexB, isHexC, isHexD⟩ := fits
    simp [requoted, text, strictFrom, digit, isHexA, isHexB, isHexC, isHexD]

end Part

/-- The pass copies a string and changes its marks. -/
lemma strictFrom_string {parts : List Part} (isMark : mark = '"' ∨ mark = '\'')
    (fit : ∀ part ∈ parts, part.fits mark) :
    strictFrom .plain p (mark :: body parts ++ mark :: rest) =
      p.keep ++ ('"' :: body (parts.map Part.requoted) ++ '"' :: strictFrom .plain none rest) := by
  have inside : strictFrom (.quoted mark) none (body parts ++ mark :: rest) =
      body (parts.map Part.requoted) ++ '"' :: strictFrom .plain none rest := by
    induction parts with
    | nil =>
      have plain : mark ≠ '\\' := by rcases isMark with rfl | rfl <;> decide
      rw [body_nil, nil_append, strictFrom, if_pos rfl]
      · rfl
      · exact fun backslash => absurd backslash plain
      · exact fun _ _ backslash => absurd backslash plain
    | cons part parts ih =>
      obtain ⟨fits, others⟩ := forall_mem_cons.mp fit
      rw [body_cons, append_assoc, Part.strictFrom_quoted isMark fits, ih others,
        map_cons, body_cons, append_assoc]
  rw [cons_append, strictFrom_mark isMark, inside]
  rfl

/-! ### Documents -/

/-- A string as it is written, between quotation marks of one of the two kinds. -/
structure Literal where
  mark : Char
  parts : List Part
  isMark : mark = '"' ∨ mark = '\''
  fit : ∀ part ∈ parts, part.fits mark

/-- A token as it is written. -/
inductive Lexeme where
  | sign (s : Sign)
  | string (literal : Literal)
  | word (text : Text) (isWord : IsWord text)

namespace Lexeme

def text : Lexeme → Text
  | sign s => [s.char]
  | string literal => literal.mark :: body literal.parts ++ [literal.mark]
  | word text _ => text

def token : Lexeme → Token
  | sign s => .sign s
  | string literal => .string (units literal.parts)
  | word text _ => .word text

/-- Whether a value or the name of a field can start so. -/
def starts : Lexeme → Bool
  | sign s => s.opens
  | _ => true

end Lexeme

/-- Puts commas between the items of a list or an object, and one behind the last if told so. -/
def joined (trailing : Bool) : List (List Lexeme) → List Lexeme
  | [] => []
  | [item] => item ++ if trailing then [.sign .comma] else []
  | item :: next :: later => item ++ .sign .comma :: joined trailing (next :: later)

/-- A value, with a note for each list and object whether a comma stands behind its last item. -/
inductive Document where
  | word (text : Text) (isWord : IsWord text)
  | string (literal : Literal)
  | array (items : List Document) (trailing : Bool)
  | object (fields : List (Literal × Document)) (trailing : Bool)

namespace Document

mutual

/-- The document as it is written, or without the commas behind last items. -/
def lexemes (trailing : Bool) : Document → List Lexeme
  | word text isWord => [.word text isWord]
  | string literal => [.string literal]
  | array items comma =>
    .sign .openBracket :: joined (trailing && comma) (itemLexemes trailing items) ++
      [.sign .closeBracket]
  | object fields comma =>
    .sign .openBrace :: joined (trailing && comma) (fieldLexemes trailing fields) ++
      [.sign .closeBrace]

def itemLexemes (trailing : Bool) : List Document → List (List Lexeme)
  | [] => []
  | item :: later => item.lexemes trailing :: itemLexemes trailing later

def fieldLexemes (trailing : Bool) : List (Literal × Document) → List (List Lexeme)
  | [] => []
  | (name, value) :: later =>
    (.string name :: .sign .colon :: value.lexemes trailing) :: fieldLexemes trailing later

end

/-- The tokens of the document in strict JSON. -/
def tokens (d : Document) : List Token := (d.lexemes false).map Lexeme.token

end Document

/-! ### Commas before closing brackets -/

/-- A row is empty or starts with a sign, as what follows a value does. -/
def Ended (later : List Lexeme) : Prop := ∀ next ∈ later.head?, ∃ s, next = .sign s

/-- The lexeme can stand before a row: a comma before a value or a name, a word before no other
word. -/
def Lexeme.Precedes : Lexeme → List Lexeme → Prop
  | sign .comma, later => ∃ next ∈ later.head?, next.starts
  | word _ _, later => Ended later
  | _, _ => True

/-- The second row is the first without its commas before closing brackets. -/
inductive Tidies : List Lexeme → List Lexeme → Prop
  | done : Tidies [] []
  | trailing {s : Sign} {later tidy : List Lexeme} (closes : s.closes)
      (tidies : Tidies (.sign s :: later) tidy) : Tidies (.sign .comma :: .sign s :: later) tidy
  | next {lexeme : Lexeme} {later tidy : List Lexeme} (precedes : lexeme.Precedes later)
      (tidies : Tidies later tidy) : Tidies (lexeme :: later) (lexeme :: tidy)

/-- The lexemes of one value or field, as written and tidy, whatever follows them. -/
structure IsItem (written tidy : List Lexeme) : Prop where
  first : ∃ lexeme ∈ written.head?, lexeme.starts
  tidies : ∀ {later tidy'}, Ended later → Tidies later tidy' → Tidies (written ++ later)
    (tidy ++ tidy')

lemma ended_sign (s : Sign) (later : List Lexeme) : Ended (.sign s :: later) := fun _ first =>
  ⟨s, (Option.some.inj first).symm⟩

lemma precedes_of_ne_comma {s : Sign} (other : s ≠ .comma) (later : List Lexeme) :
    (Lexeme.sign s).Precedes later := by
  cases s with
  | comma => exact absurd rfl other
  | _ => trivial

/-- Items with commas between them, up to the closing bracket. -/
lemma tidies_joined {items items' : List (List Lexeme)} (all : List.Forall₂ IsItem items items')
    (comma : Bool) {s : Sign} (closes : s.closes) {later tidy : List Lexeme}
    (behind : Tidies (.sign s :: later) tidy) :
    Tidies (joined comma items ++ .sign s :: later) (joined false items' ++ tidy) := by
  induction all with
  | nil => exact behind
  | @cons item item' items items' isItem all ih =>
    cases all with
    | nil =>
      cases comma with
      | false => simpa [joined] using isItem.tidies (ended_sign s later) behind
      | true => simpa [joined] using isItem.tidies (ended_sign .comma _) (.trailing closes behind)
    | @cons next next' items items' isNext all =>
      have follows :
          (Lexeme.sign .comma).Precedes (joined comma (next :: items) ++ .sign s :: later) := by
        obtain ⟨first, head, starts⟩ := isNext.first
        refine ⟨first, ?_, starts⟩
        obtain ⟨more, rfl⟩ := head?_eq_some_iff.mp head
        cases items <;> rfl
      simpa [joined] using isItem.tidies (ended_sign .comma _) (.next follows ih)

/-- A bracket, items with commas between them and the bracket that closes it. -/
lemma isItem_bracketed {items items' : List (List Lexeme)} (all : List.Forall₂ IsItem items items')
    (comma : Bool) {s s' : Sign} (opens : (Lexeme.sign s).starts) (closes : s'.closes) :
    IsItem (.sign s :: joined comma items ++ [.sign s']) (.sign s :: joined false items' ++
      [.sign s']) where
  first := ⟨_, rfl, opens⟩
  tidies _ behind := by
    have opening : s ≠ .comma := by rintro rfl; cases opens
    have closing : s' ≠ .comma := by rintro rfl; cases closes
    have closed := Tidies.next (precedes_of_ne_comma closing _) behind
    simpa using Tidies.next (precedes_of_ne_comma opening _) (tidies_joined all comma closes closed)

namespace Document

mutual

theorem isItem (d : Document) : IsItem (d.lexemes true) (d.lexemes false) := by
  cases d with
  | word text isWord => exact ⟨⟨_, rfl, rfl⟩, fun ended behind => .next ended behind⟩
  | string literal => exact ⟨⟨_, rfl, rfl⟩, fun _ behind => .next trivial behind⟩
  | array items comma => exact isItem_bracketed (isItem_items items) comma rfl rfl
  | object fields comma => exact isItem_bracketed (isItem_fields fields) comma rfl rfl

theorem isItem_items (items : List Document) :
    List.Forall₂ IsItem (itemLexemes true items) (itemLexemes false items) := by
  cases items with
  | nil => exact .nil
  | cons item later => exact .cons item.isItem (isItem_items later)

theorem isItem_fields (fields : List (Literal × Document)) :
    List.Forall₂ IsItem (fieldLexemes true fields) (fieldLexemes false fields) := by
  cases fields with
  | nil => exact .nil
  | cons field later =>
    obtain ⟨name, value⟩ := field
    refine .cons ⟨⟨_, rfl, rfl⟩, fun ended behind => ?_⟩ (isItem_fields later)
    exact .next trivial (.next trivial (value.isItem.tidies ended behind))

end

lemma tidies (d : Document) : Tidies (d.lexemes true) (d.lexemes false) := by
  simpa using d.isItem.tidies (by simp [Ended]) .done

end Document

/-! ### Strict texts -/

/-- The next token is no closing bracket. -/
def GoesOn (tokens : List Token) : Prop := ∀ s, tokens.head? = some (.sign s) → s.closes = false

/-- No comma stands before a closing bracket. -/
def Tight : List Token → Prop
  | [] => True
  | token :: later => (token = .sign .comma → GoesOn later) ∧ Tight later

lemma strictFrom_sign {s : Sign} (other : s ≠ .comma) (goesOn : p = none ∨ s.closes = false) :
    strictFrom .plain p (s.char :: rest) = p.keep ++ s.char :: strictFrom .plain none rest := by
  have closing (closes : s.closes) :
      strictFrom .plain p (s.char :: rest) = p.keep ++ s.char :: strictFrom .plain none rest := by
    obtain rfl : p = none := goesOn.resolve_right (by simp [closes])
    exact strictFrom_closing closes
  cases s with
  | comma => exact absurd rfl other
  | closeBrace => exact closing rfl
  | closeBracket => exact closing rfl
  | _ => exact strictFrom_solid rfl

/-- A strict text stays as it is, and so does a comma before it. -/
lemma strictFrom_of_tokens {text : Text} {tokens : List Token} (has : Tokens text tokens)
    (tight : Tight tokens) (goesOn : p = none ∨ GoesOn tokens) :
    strictFrom .plain p text = p.keep ++ text := by
  induction has generalizing p with
  | done => simp [strictFrom]
  | @blank c rest tokens isBlank later ih =>
    rw [strictFrom_blank isBlank]
    cases p with
    | none => simpa [Pending.blank, Pending.keep] using ih tight (.inl rfl)
    | some before =>
      have next := ih (p := some (before ++ [c])) tight (.inr (goesOn.resolve_left (by simp)))
      simpa [Pending.blank, Pending.keep] using next
  | @sign s rest tokens later ih =>
    by_cases comma : s = .comma
    · subst comma
      rw [Sign.char, strictFrom_comma, ih tight.2 (.inr (tight.1 rfl))]
      rfl
    · have closing : p = none ∨ s.closes = false := goesOn.imp_right fun goesOn => goesOn s rfl
      rw [strictFrom_sign comma closing, ih tight.2 (.inl rfl)]
      rfl
  | @string parts rest tokens fit later ih =>
    have same : parts.map Part.requoted = parts := by
      calc parts.map Part.requoted
          = parts.map id := map_congr_left fun part mem => Part.requoted_eq (fit part mem)
        _ = parts := map_id parts
    rw [strictFrom_string (.inl rfl) fit, ih tight.2 (.inl rfl), same]
    rfl
  | word isWord stop later ih =>
    rw [strictFrom_word isWord, ih tight.2 (.inl rfl)]
    rfl

/-! ### The strict form of a text with gaps -/

/-- Whether a comma goes is seen behind the next gap. -/
lemma strictFrom_some_closing {s : Sign} (closes : s.closes) (before : Text) (gap : List Piece)
    (rest : Text) : strictFrom .plain (some before) (gap.flatMap Piece.text ++ s.char :: rest) =
      before ++ strictFrom .plain none (gap.flatMap Piece.text ++ s.char :: rest) := by
  rw [Leaves.gap, Leaves.gap, strictFrom_closing closes, strictFrom_closing closes]
  simp [Pending.pass, Pending.discard]

lemma strictFrom_some_starting {lexeme : Lexeme} (starts : lexeme.starts) (before : Text)
    (gap : List Piece) (rest : Text) :
    strictFrom .plain (some before) (gap.flatMap Piece.text ++ (lexeme.text ++ rest)) =
      ',' :: before ++ strictFrom .plain none (gap.flatMap Piece.text ++
        (lexeme.text ++ rest)) := by
  have kept (p : Pending) : strictFrom .plain p (lexeme.text ++ rest) =
      p.keep ++ strictFrom .plain none (lexeme.text ++ rest) := by
    cases lexeme with
    | sign s =>
      have solid := isSolid_of_opens starts
      rw [Lexeme.text, singleton_append, strictFrom_solid solid, strictFrom_solid solid]
      rfl
    | string literal =>
      rw [Lexeme.text, append_assoc, cons_append, strictFrom_mark literal.isMark,
        strictFrom_mark literal.isMark]
      rfl
    | word text isWord =>
      rw [Lexeme.text, strictFrom_word isWord, strictFrom_word isWord]
      rfl
  rw [Leaves.gap, Leaves.gap, kept]
  simp [Pending.pass, Pending.keep]

lemma units_map_requoted (parts : List Part) : units (parts.map Part.requoted) = units parts := by
  simp [units, flatMap_map, Part.units_requoted]

lemma tokens_gap {tokens : List Token} (gap : List Piece)
    (has : Tokens (strictFrom .plain none rest) tokens) :
    Tokens (strictFrom .plain none (gap.flatMap Piece.text ++ rest)) tokens := by
  rw [Leaves.gap]
  exact has.append_blanks (isBlank_gap gap)

/-- Gaps and lexemes in turn. -/
def rowText (row : List (List Piece × Lexeme)) : Text :=
  row.flatMap fun entry => entry.1.flatMap Piece.text ++ entry.2.text

lemma rowText_cons (gap : List Piece) (lexeme : Lexeme) (row : List (List Piece × Lexeme))
    (tail : Text) :
    rowText ((gap, lexeme) :: row) ++ tail = gap.flatMap Piece.text ++
      (lexeme.text ++ (rowText row ++ tail)) := by
  simp [rowText]

namespace Tidies

variable {later tidy : List Lexeme}

lemma head?_eq_of_starts {lexeme : Lexeme} (tidies : Tidies later tidy)
    (first : lexeme ∈ later.head?) (starts : lexeme.starts) : tidy.head? = some lexeme := by
  cases tidies with
  | done => cases first
  | trailing =>
    obtain rfl := Option.some.inj first
    cases starts
  | next => exact first

/-- Behind a word comes a sign also in the tidy row. -/
lemma head?_ne_word (tidies : Tidies later tidy) (ended : Ended later) (word : Text) :
    (tidy.map Lexeme.token).head? ≠ some (.word word) := by
  cases tidies with
  | done => simp
  | trailing closes tidies =>
    cases tidies with
    | trailing => cases closes
    | next => simp [Lexeme.token]
  | @next lexeme =>
    obtain ⟨s, rfl⟩ := ended lexeme rfl
    simp [Lexeme.token]

/-- The strict form of a row has the tokens of the tidy row. -/
lemma tokens (tidies : Tidies later tidy) {row : List (List Piece × Lexeme)}
    (spells : row.map Prod.snd = later) {tail : Text}
    (ends : Tokens (strictFrom .plain none tail) []) :
    Tokens (strictFrom .plain none (rowText row ++ tail)) (tidy.map Lexeme.token) := by
  induction tidies generalizing row with
  | done =>
    obtain rfl := map_eq_nil_iff.mp spells
    exact ends
  | @trailing s later tidy closes tidies ih =>
    obtain ⟨⟨gap, _⟩, row, rfl, rfl, spells'⟩ := map_eq_cons_iff.mp spells
    have inner := ih spells'
    obtain ⟨⟨gap', _⟩, row, rfl, rfl, -⟩ := map_eq_cons_iff.mp spells'
    have dropped : strictFrom .plain none (',' :: (rowText ((gap', .sign s) :: row) ++ tail)) =
        strictFrom .plain none (rowText ((gap', .sign s) :: row) ++ tail) := by
      rw [strictFrom_comma, rowText_cons]
      exact strictFrom_some_closing closes [] gap' _
    rw [rowText_cons]
    refine tokens_gap gap ?_
    exact dropped.symm ▸ inner
  | @next _ later tidy precedes tidies ih =>
    obtain ⟨⟨gap, lexeme⟩, row, rfl, rfl, spells'⟩ := map_eq_cons_iff.mp spells
    have inner := ih spells'
    rw [rowText_cons]
    refine tokens_gap gap ?_
    cases lexeme with
    | sign s =>
      have kept : strictFrom .plain none (s.char :: (rowText row ++ tail)) =
          s.char :: strictFrom .plain none (rowText row ++ tail) := by
        by_cases comma : s = .comma
        · subst comma
          obtain ⟨first, head, starts⟩ := precedes
          obtain ⟨more, rfl⟩ := head?_eq_some_iff.mp head
          obtain ⟨⟨gap', _⟩, row, rfl, rfl, -⟩ := map_eq_cons_iff.mp spells'
          rw [Sign.char, strictFrom_comma, rowText_cons]
          exact strictFrom_some_starting starts [] gap' _
        · exact strictFrom_sign comma (.inl rfl)
      exact kept.symm ▸ .sign inner
    | string literal =>
      have fit : ∀ part ∈ literal.parts.map Part.requoted, part.fits '"' :=
        forall_mem_map.mpr fun part mem => Part.fits_requoted (literal.fit part mem)
      have has := Tokens.string fit inner
      rw [units_map_requoted] at has
      rw [Lexeme.text, append_assoc, singleton_append, strictFrom_string literal.isMark literal.fit]
      exact has
    | word text isWord =>
      have stop := inner.head_not_isWordChar (tidies.head?_ne_word precedes)
      rw [Lexeme.text, strictFrom_word isWord]
      exact .word isWord stop inner

/-- A tidy row has no comma before a closing bracket. -/
lemma tight (tidies : Tidies later tidy) : Tight (tidy.map Lexeme.token) := by
  induction tidies with
  | done => trivial
  | trailing _ _ ih => exact ih
  | @next lexeme later tidy precedes tidies ih =>
    refine ⟨fun comma s closing => ?_, ih⟩
    obtain rfl : lexeme = .sign .comma := by cases lexeme <;> cases comma; rfl
    obtain ⟨first, head, starts⟩ := precedes
    rw [head?_map, tidies.head?_eq_of_starts head starts] at closing
    cases first with
    | sign s' =>
      obtain rfl : s' = s := by simpa [Lexeme.token] using closing
      exact Sign.closes_of_opens starts
    | _ => simp [Lexeme.token] at closing

end Tidies

/-- A document with a gap before each lexeme and one at the end. The last comment of a line needs no
line feed if the text ends with it. -/
structure Layout (d : Document) where
  row : List (List Piece × Lexeme)
  spells : row.map Prod.snd = d.lexemes true
  gap : List Piece
  comment : Option { body : Text // '\n' ∉ body }

namespace Layout

variable {d : Document}

def commentText : Option { body : Text // '\n' ∉ body } → Text
  | none => []
  | some body => '/' :: '/' :: body.1

def text (l : Layout d) : Text :=
  rowText l.row ++ (l.gap.flatMap Piece.text ++ commentText l.comment)

lemma strictFrom_commentText (comment : Option { body : Text // '\n' ∉ body }) :
    strictFrom .plain none (commentText comment) = [] := by
  cases comment with
  | none => rfl
  | some body =>
    obtain ⟨body, inLine⟩ := body
    have skipped : strictFrom .lineComment none body = [] := by
      induction body with
      | nil => rfl
      | cons c body ih =>
        simp only [mem_cons, not_or] at inLine
        rw [strictFrom, if_neg (Ne.symm inLine.1), ih inLine.2]
    simpa [commentText, strictFrom] using skipped

lemma tokens_strict (l : Layout d) : Tokens (strict l.text) d.tokens := by
  have ends :
      Tokens (strictFrom .plain none (l.gap.flatMap Piece.text ++ commentText l.comment)) [] :=
    tokens_gap l.gap ((strictFrom_commentText l.comment).symm ▸ .done)
  exact d.tidies.tokens l.spells ends

end Layout

/-- The strict form of a document has the tokens of the document, and strict JSON is its own strict
form. -/
theorem strict_form_has_tokens (d : Document) :
    (∀ (l : Layout d) (tokens : List Token), Tokens (strict l.text) tokens ↔ tokens = d.tokens) ∧
      ∀ text : Text, Tokens text d.tokens → strict text = text := by
  refine ⟨fun l tokens => ⟨fun has => has.unique l.tokens_strict, ?_⟩, fun text has => ?_⟩
  · rintro rfl
    exact l.tokens_strict
  · exact strictFrom_of_tokens has d.tidies.tight (.inl rfl)

/-- A name between single quotation marks that holds one of them, and two commas that go, behind
both of which a comment stands. -/
theorem commented_list_has_tokens : ∃ (d : Document) (l : Layout d),
    l.text = "\x7b'it\\'s': [\"x\", /*,*/ ], // end\n\x7d".toList ∧
    d.tokens = [.sign .openBrace, .string [105, 116, 39, 115], .sign .colon, .sign .openBracket,
      .string [120],
      .sign .closeBracket, .sign .closeBrace] ∧
    (∀ tokens, Tokens (strict l.text) tokens ↔ tokens = d.tokens) ∧ strict (strict l.text) =
      strict l.text := by
  let name : Literal := ⟨'\'', [.plain 'i', .plain 't', .escape '\'', .plain 's'],
    .inr rfl, by decide⟩
  let item : Literal := ⟨'"', [.plain 'x'], .inl rfl, by decide⟩
  let d : Document := .object [(name, .array [.string item] true)] true
  let row : List (List Piece × Lexeme) :=
    [([], .sign .openBrace), ([], .string name), ([], .sign .colon),
      ([.blank ' ' rfl], .sign .openBracket), ([], .string item), ([], .sign .comma),
      ([.blank ' ' rfl, .blockComment [','] (by decide), .blank ' ' rfl], .sign .closeBracket),
      ([], .sign .comma),
      ([.blank ' ' rfl, .lineComment " end".toList (by decide)], .sign .closeBrace)]
  have has := strict_form_has_tokens d
  refine ⟨d, ⟨row, rfl, [], none⟩, by decide, rfl, has.1 _, has.2 _ ?_⟩
  exact (has.1 _ _).mpr rfl

end PatternLowering.Json

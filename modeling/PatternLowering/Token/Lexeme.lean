import PatternLowering.SyntaxError
import PatternLowering.Token
import PatternLowering.Token.Gap

/-!
# Lexemes

The token at a place where no gap is left to skip. Every lexeme but the end of the file takes at
least one character, malformed ones included.
-/

namespace PatternLowering

/-- First character of a name. -/
def isNameStart (c : Char) : Bool := c = '_' || c = '$' || Letters.isAlphabetic c

/-- Later character of a name; the two joiners count. -/
def isNamePart (c : Char) : Bool :=
  c = '_' || c = '$' || Letters.isAlphanumeric c || c = '\u200c' || c = '\u200d'

/-- Flags of a regular expression are plain letters, digits, `_` and `$`. -/
def isRegexFlag (c : Char) : Bool := c = '_' || c = '$' || c.isAlphanum

/-- A kind of token, where it ends, and what is wrong with it. -/
structure Lexeme where
  kind : TokenKind
  stop : Cursor
  error : Option SyntaxError
deriving DecidableEq, Repr

namespace Lexeme

def word (start : Cursor) : Lexeme :=
  let stop := start.skipWhile isNamePart
  match Keyword.ofSpelling? (String.ofList (start.textUpTo stop)) with
  | some k => ⟨.keyword k, stop, none⟩
  | none => ⟨.identifier, stop, none⟩

/-- Moves over a fraction: a point and the digits after it. -/
def fraction (cursor : Cursor) : Cursor :=
  if cursor.head? = some '.' then cursor.advance.skipWhile Char.isDigit else cursor

/-- Moves over an exponent, which needs a digit. -/
def exponent (cursor : Cursor) : Cursor :=
  match cursor.rest with
  | e :: sign :: d :: _ =>
    if (e = 'e' ∨ e = 'E') ∧ (sign = '+' ∨ sign = '-') ∧ d.isDigit then
      (cursor.skip 2).skipWhile Char.isDigit
    else if (e = 'e' ∨ e = 'E') ∧ sign.isDigit then cursor.advance.skipWhile Char.isDigit
    else cursor
  | [e, d] =>
    if (e = 'e' ∨ e = 'E') ∧ d.isDigit then cursor.advance.skipWhile Char.isDigit else cursor
  | _ => cursor

def number (start : Cursor) : Lexeme :=
  let stop :=
    match start.rest with
    | '0' :: 'x' :: _ => (start.skip 2).skipWhile Letters.isHexDigit
    | '0' :: 'X' :: _ => (start.skip 2).skipWhile Letters.isHexDigit
    | _ => exponent (fraction (start.skipWhile Char.isDigit))
  ⟨.number, stop, none⟩

/-- The end of a string whose opening quote has been passed, and whether it is closed. It ends at
the quote or, unclosed, before a line end that no backslash precedes. -/
def stringEnd (quote : Char) (offset : Nat) : Text → Cursor × Bool
  | [] => (⟨offset, []⟩, false)
  | '\\' :: '\r' :: '\n' :: rest => stringEnd quote (offset + 3) rest
  | '\\' :: c :: rest => stringEnd quote (offset + 1 + c.utf8Size) rest
  | c :: rest =>
    if isLineEnd c then (⟨offset, c :: rest⟩, false)
    else if c = quote then (⟨offset + c.utf8Size, rest⟩, true)
    else stringEnd quote (offset + c.utf8Size) rest

def string (quote : Char) (start : Cursor) : Lexeme :=
  let inner := start.advance
  let (stop, closed) := stringEnd quote inner.offset inner.rest
  ⟨.string, stop, if closed then none else some .openString⟩

/-- The end of the body of a regular expression whose opening slash has been passed, and whether it
is closed. A slash inside a character class does not close it. -/
def regexEnd (inClass : Bool) (offset : Nat) : Text → Cursor × Bool
  | [] => (⟨offset, []⟩, false)
  | '\\' :: c :: rest =>
    if isLineEnd c then (⟨offset + 1, c :: rest⟩, false)
    else regexEnd inClass (offset + 1 + c.utf8Size) rest
  | c :: rest =>
    if isLineEnd c then (⟨offset, c :: rest⟩, false)
    else if c = '[' then regexEnd true (offset + 1) rest
    else if c = ']' then regexEnd false (offset + 1) rest
    else if c = '/' ∧ ¬ inClass then (⟨offset + 1, rest⟩, true)
    else regexEnd inClass (offset + c.utf8Size) rest

/-- The regular expression that starts at a slash. -/
def regex (start : Cursor) : Lexeme :=
  let inner := start.advance
  let (stop, closed) := regexEnd false inner.offset inner.rest
  if closed then ⟨.regex, stop.skipWhile isRegexFlag, none⟩ else ⟨.regex, stop, some .openRegex⟩

def startsNumber : Text → Bool
  | c :: rest => c.isDigit || (c = '.' && rest.head?.any Char.isDigit)
  | [] => false

/-- The lexeme at a cursor. A slash is taken for a punctuator; only the grammar knows where it opens
a regular expression. -/
def read (start : Cursor) : Lexeme :=
  match start.rest with
  | [] => ⟨.endOfFile, start, none⟩
  | c :: _ =>
    if isNameStart c then word start
    else if startsNumber start.rest then number start
    else if c = '"' ∨ c = '\'' then string c start
    else
      match Punctuator.at? start.rest with
      | some p => ⟨.punctuator p, start.skip p.spelling.length, none⟩
      | none => ⟨.unknown, start.advance, some (.unexpectedCharacter c)⟩

end Lexeme

end PatternLowering

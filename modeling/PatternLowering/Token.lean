import PatternLowering.Text.Letters
import PatternLowering.Text

/-!
# Tokens

The kinds of token and their spellings. Keywords are the words that cannot name a variable here;
`of`, `get` and `set` are ordinary names that the grammar looks at.
-/

namespace PatternLowering

inductive Punctuator where
  | openBrace
  | closeBrace
  | openParen
  | closeParen
  | openBracket
  | closeBracket
  | dot
  | ellipsis
  | semicolon
  | comma
  | question
  | colon
  | less
  | greater
  | lessEqual
  | greaterEqual
  | shiftLeft
  | shiftRight
  | shiftRightZero
  | equal
  | notEqual
  | identical
  | notIdentical
  | plus
  | minus
  | times
  | slash
  | percent
  | increment
  | decrement
  | not
  | tilde
  | and
  | or
  | xor
  | andAnd
  | orOr
  | assign
  | plusAssign
  | minusAssign
  | timesAssign
  | slashAssign
  | percentAssign
  | shiftLeftAssign
  | shiftRightAssign
  | shiftRightZeroAssign
  | andAssign
  | orAssign
  | xorAssign
deriving DecidableEq, Repr

def Punctuator.spelling : Punctuator → String
  | openBrace => "\x7b"
  | closeBrace => "\x7d"
  | openParen => "("
  | closeParen => ")"
  | openBracket => "["
  | closeBracket => "]"
  | dot => "."
  | ellipsis => "..."
  | semicolon => ";"
  | comma => ","
  | question => "?"
  | colon => ":"
  | less => "<"
  | greater => ">"
  | lessEqual => "<="
  | greaterEqual => ">="
  | shiftLeft => "<<"
  | shiftRight => ">>"
  | shiftRightZero => ">>>"
  | equal => "=="
  | notEqual => "!="
  | identical => "==="
  | notIdentical => "!=="
  | plus => "+"
  | minus => "-"
  | times => "*"
  | slash => "/"
  | percent => "%"
  | increment => "++"
  | decrement => "--"
  | not => "!"
  | tilde => "~"
  | and => "&"
  | or => "|"
  | xor => "^"
  | andAnd => "&&"
  | orOr => "||"
  | assign => "="
  | plusAssign => "+="
  | minusAssign => "-="
  | timesAssign => "*="
  | slashAssign => "/="
  | percentAssign => "%="
  | shiftLeftAssign => "<<="
  | shiftRightAssign => ">>="
  | shiftRightZeroAssign => ">>>="
  | andAssign => "&="
  | orAssign => "|="
  | xorAssign => "^="

/-- All punctuators, longer spellings first. -/
def Punctuator.all : List Punctuator :=
  [shiftRightZeroAssign,
   ellipsis, shiftLeftAssign, identical, notIdentical, shiftRightZero, shiftRightAssign,
   shiftLeft, lessEqual, shiftRight, greaterEqual, equal, notEqual, increment, plusAssign,
   decrement, minusAssign, timesAssign, slashAssign, percentAssign, andAnd, andAssign, orOr,
   orAssign, xorAssign,
   openBrace, closeBrace, openParen, closeParen, openBracket, closeBracket, semicolon, comma,
   question, colon, dot, less, greater, assign, not, plus, minus, times, slash, percent, and, or,
   xor, tilde]

/-- The longest punctuator that a text starts with. -/
def Punctuator.at? (text : Text) : Option Punctuator :=
  all.find? fun p => p.spelling.toList.isPrefixOf text

inductive Keyword where
  | breakKw
  | caseKw
  | catchKw
  | constKw
  | continueKw
  | debuggerKw
  | defaultKw
  | deleteKw
  | doKw
  | elseKw
  | falseKw
  | finallyKw
  | forKw
  | functionKw
  | ifKw
  | inKw
  | instanceofKw
  | letKw
  | newKw
  | nullKw
  | returnKw
  | switchKw
  | thisKw
  | throwKw
  | trueKw
  | tryKw
  | typeofKw
  | varKw
  | voidKw
  | whileKw
  | withKw
deriving DecidableEq, Repr

def Keyword.spelling : Keyword → String
  | breakKw => "break"
  | caseKw => "case"
  | catchKw => "catch"
  | constKw => "const"
  | continueKw => "continue"
  | debuggerKw => "debugger"
  | defaultKw => "default"
  | deleteKw => "delete"
  | doKw => "do"
  | elseKw => "else"
  | falseKw => "false"
  | finallyKw => "finally"
  | forKw => "for"
  | functionKw => "function"
  | ifKw => "if"
  | inKw => "in"
  | instanceofKw => "instanceof"
  | letKw => "let"
  | newKw => "new"
  | nullKw => "null"
  | returnKw => "return"
  | switchKw => "switch"
  | thisKw => "this"
  | throwKw => "throw"
  | trueKw => "true"
  | tryKw => "try"
  | typeofKw => "typeof"
  | varKw => "var"
  | voidKw => "void"
  | whileKw => "while"
  | withKw => "with"

def Keyword.all : List Keyword :=
  [breakKw, caseKw, catchKw, constKw, continueKw, debuggerKw, defaultKw, deleteKw, doKw, elseKw,
   falseKw, finallyKw, forKw, functionKw, ifKw, inKw, instanceofKw, letKw, newKw, nullKw, returnKw,
   switchKw, thisKw, throwKw, trueKw, tryKw, typeofKw, varKw, voidKw, whileKw, withKw]

/-- The keyword with this spelling. -/
def Keyword.ofSpelling? (word : String) : Option Keyword :=
  all.find? (·.spelling == word)

inductive TokenKind where
  | unknown
  | endOfFile
  | identifier
  | number
  | string
  | regex
  | punctuator (p : Punctuator)
  | keyword (k : Keyword)
deriving DecidableEq, Repr

/-- How a token of this kind is called in messages; its text where that is fixed. -/
def TokenKind.spelling : TokenKind → String
  | unknown => "unknown"
  | endOfFile => "end of file"
  | identifier => "identifier"
  | number => "number"
  | string => "string"
  | regex => "regular expression"
  | punctuator p => p.spelling
  | keyword k => k.spelling

/-- Names and keywords: what may follow the dot of a member access. -/
def TokenKind.isWord : TokenKind → Bool
  | identifier => true
  | keyword _ => true
  | _ => false

/-- A token spans the bytes from `start` up to `stop`. `lineBreak` tells whether a line break stands
between it and the token before it. -/
structure Token where
  kind : TokenKind
  start : Nat
  stop : Nat
  lineBreak : Bool
deriving DecidableEq, Repr

def Token.length (t : Token) : Nat := t.stop - t.start

end PatternLowering

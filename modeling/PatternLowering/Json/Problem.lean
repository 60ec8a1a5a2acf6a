import PatternLowering.Json.Value
import PatternLowering.Text.Shown

/-!
# What can be wrong with JSON

A text may end too early, it may be no JSON, or it may say something else than was asked for.
-/

namespace PatternLowering.Json

/-- A place in a text: its line, counted from one, and the bytes of that line before it. -/
structure Spot where
  line : Nat
  column : Nat
deriving DecidableEq, Repr

namespace Spot

def start : Spot := ⟨1, 0⟩

/-- The place `bytes` bytes further on in the text that follows, at most its end. -/
def after (spot : Spot) (bytes : Nat) : Text → Spot
  | [] => spot
  | c :: rest =>
    if bytes = 0 then spot
    else if c = '\n' then after ⟨spot.line + 1, 0⟩ (bytes - 1) rest
    else if c.utf8Size ≤ bytes then
      after ⟨spot.line, spot.column + c.utf8Size⟩ (bytes - c.utf8Size) rest
    else ⟨spot.line, spot.column + bytes⟩

end Spot

/-- What a text ended inside of. -/
inductive Unfinished where
  | value
  | list
  | object
  | string
deriving DecidableEq, Repr

/-- Why a text is no JSON. -/
inductive Malformation where
  | noValue
  | noName
  | noColon
  | noItemEnd
  | noFieldEnd
  | unknownWord
  | badNumber
  | tooLarge
  | controlCharacter
  | badEscape
  | loneSurrogate
  | brokenPair
  | trailingComma
  | trailingText
  | tooDeep
deriving DecidableEq, Repr

/-- Why a value will not do. Of a list or an object of the wrong kind the inside was not read. -/
inductive Misfit where
  | wrongKind (found : Json) (wanted : String)
  | repeatedField (name : String)
  | notFlag (found : Json)
deriving Repr

inductive Problem where
  | ended (inside : Unfinished)
  | malformed (how : Malformation)
  | misfit (why : Misfit)
deriving Repr

/-- A problem and where it was seen. -/
structure ReadError where
  problem : Problem
  spot : Spot
deriving Repr

/-! ## Messages -/

def Unfinished.message : Unfinished → String
  | value => "EOF while parsing a value"
  | list => "EOF while parsing a list"
  | object => "EOF while parsing an object"
  | string => "EOF while parsing a string"

def Malformation.message : Malformation → String
  | noValue => "expected value"
  | noName => "key must be a string"
  | noColon => "expected `:`"
  | noItemEnd => "expected `,` or `]`"
  | noFieldEnd => "expected `,` or `\x7d`"
  | unknownWord => "expected ident"
  | badNumber => "invalid number"
  | tooLarge => "number out of range"
  | controlCharacter => "control character (\\u0000-\\u001F) found while parsing a string"
  | badEscape => "invalid escape"
  | loneSurrogate => "lone leading surrogate in hex escape"
  | brokenPair => "unexpected end of hex escape"
  | trailingComma => "trailing comma"
  | trailingText => "trailing characters"
  | tooDeep => "recursion limit exceeded"

def Number.label : Number → String
  | integer _ => "integer"
  | double _ _ => "floating point"

/-- The kind of a value, and a single value itself. -/
def described : Json → String
  | null => "null"
  | bool value => "boolean `" ++ toString value ++ "`"
  | number value => value.label ++ " `" ++ String.ofList value.text ++ "`"
  | string value => "string " ++ String.ofList value.shown
  | array _ => "sequence"
  | object _ => "map"

def Misfit.message : Misfit → String
  | wrongKind found wanted => "invalid type: " ++ found.described ++ ", expected " ++ wanted
  | repeatedField name => "duplicate field `" ++ name ++ "`"
  | notFlag found => "expected true or false, got " ++ String.ofList found.compact

def Problem.message : Problem → String
  | ended inside => inside.message
  | malformed how => how.message
  | misfit why => why.message

def ReadError.message (error : ReadError) : String :=
  error.problem.message ++ s!" at line {error.spot.line} column {error.spot.column}"

end PatternLowering.Json

import PatternLowering.LineMap
import PatternLowering.Message

/-!
# Diagnostics

What is reported about a file: a stretch of its text, a numbered cause and a sentence.
-/

namespace PatternLowering

inductive Category where
  | warning
  | error
  | message
deriving DecidableEq, Repr

def Category.label : Category → String
  | .warning => "warning"
  | .error => "error"
  | .message => "message"

/-- `start` and `length` count bytes; `line` is the line of `start`, counted from one. -/
structure Diagnostic where
  category : Category
  code : Nat
  file : String
  start : Nat
  length : Nat
  line : Nat
  text : String
deriving DecidableEq, Repr

def Diagnostic.isError (d : Diagnostic) : Bool := d.category == .error

end PatternLowering

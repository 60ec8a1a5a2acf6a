import PatternLowering.Diagnostic

/-!
# Syntax errors

The causes for which a text is not a program, each with its number and its sentence.
-/

namespace PatternLowering

/-- Constructs that are recognised only to be turned away. -/
inductive Unsupported where
  | catchPattern
  | restParameter
  | parameterDefault
  | patternDefault
  | objectRest
  | spreadArgument
  | objectSpread
  | method
deriving DecidableEq, Repr

def Unsupported.phrase : Unsupported → String
  | .catchPattern => "destructuring in a catch clause"
  | .restParameter => "rest parameter"
  | .parameterDefault => "parameter default value"
  | .patternDefault => "default value in a destructuring pattern"
  | .objectRest => "object rest element"
  | .spreadArgument => "spread argument"
  | .objectSpread => "object spread"
  | .method => "method definition"

inductive SyntaxError where
  | unexpectedCharacter (c : Char)
  | openString
  | openComment
  | openRegex
  | expected (spelling : String)
  | setterParameters
  | getterParameters
  | expressionExpected
  | patternTarget
  | restNotLast
  | unsupported (construct : Unsupported)
  | tooDeep
  | assignmentTarget
  | lineBreak
  | handlerExpected
deriving DecidableEq, Repr

namespace SyntaxError

def code : SyntaxError → Nat
  | unexpectedCharacter _ => 1001
  | openString => 1002
  | openComment => 1003
  | expected _ => 1005
  | setterParameters => 1049
  | getterParameters => 1054
  | expressionExpected => 1109
  | patternTarget => 1110
  | restNotLast => 1111
  | unsupported _ => 1112
  | tooDeep => 1113
  | assignmentTarget => 1114
  | lineBreak => 1142
  | openRegex => 1161
  | handlerExpected => 1472

def template : SyntaxError → String
  | unexpectedCharacter _ => "Invalid character '\x7b0\x7d'."
  | openString => "Unterminated string literal."
  | openComment => "'*/' expected."
  | expected _ => "'\x7b0\x7d' expected."
  | setterParameters => "A 'set' accessor must have exactly one parameter."
  | getterParameters => "A 'get' accessor cannot have parameters."
  | expressionExpected => "Expression expected."
  | patternTarget => "Invalid destructuring assignment target."
  | restNotLast => "A rest element must be last in a destructuring pattern."
  | unsupported _ => "'\x7b0\x7d' is not supported by this lowering pass."
  | tooDeep => "Maximum nesting depth exceeded."
  | assignmentTarget =>
    "The left-hand side of an assignment expression must be a variable or a property access."
  | lineBreak => "Line break not permitted here."
  | openRegex => "Unterminated regular expression literal."
  | handlerExpected => "'catch' or 'finally' expected."

def arguments : SyntaxError → List String
  | unexpectedCharacter c => [c.toString]
  | expected spelling => [spelling]
  | unsupported construct => [construct.phrase]
  | _ => []

def message (e : SyntaxError) : String := Message.fill e.template e.arguments

end SyntaxError

/-- A syntax error and the stretch of text, in bytes, that it is about. -/
structure SyntaxFault where
  start : Nat
  length : Nat
  cause : SyntaxError
deriving DecidableEq, Repr

/-- The stretch in 32 bits. -/
def SyntaxFault.in32 (fault : SyntaxFault) : SyntaxFault :=
  { fault with start := low32 fault.start, length := low32 fault.length }

def SyntaxFault.diagnostic (file : String) (lines : LineMap) (fault : SyntaxFault) :
    Diagnostic where
  category := .error
  code := fault.cause.code
  file := file
  start := fault.start
  length := fault.length
  line := lines.lineOf fault.start
  text := fault.cause.message

end PatternLowering

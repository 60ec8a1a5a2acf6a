import PatternLowering.Grammar.Function
import PatternLowering.Grammar.Operator
import PatternLowering.Grammar.Target

/-!
# Expressions

From the loosest to the tightest: sequences, assignments, conditionals, binary and unary operators,
calls and member accesses, primary expressions.
-/

namespace PatternLowering.Grammar

open Parse

/-- Assignments separated by commas. -/
def expression (inner : Productions) (allowIn : Bool) : Parse NodeId := do
  let start ← here
  let first ← inner.assignment allowIn
  if !(← isAtPunctuator .comma) then return first
  let later ← many do
    if ← acceptPunctuator .comma then return some (← inner.assignment allowIn)
    return none
  finish start (.sequence (first :: later))

def callArguments (inner : Productions) : Parse (List NodeId) := do
  expectPunctuator .openParen
  let arguments ← many do
    if ← isAtPunctuator .closeParen then return none
    if ← isAtPunctuator .ellipsis then fail (.unsupported .spreadArgument)
    let argument ← inner.assignment true
    separator .closeParen
    return some argument
  advance
  return arguments

/-- A member access on `object`, which starts at `start`. -/
def memberAccess (inner : Productions) (start : Nat) (object : NodeId) : Parse NodeId := do
  if ← acceptPunctuator .dot then
    let name ← word
    finish start (.member object name)
  else
    expectPunctuator .openBracket
    let key ← expression inner true
    expectPunctuator .closeBracket
    finish start (.element object key)

def isAtMember : Parse Bool :=
  return (← isAtPunctuator .dot) || (← isAtPunctuator .openBracket)

def arrayElement (inner : Productions) : Parse NodeId := do
  let start ← here
  if ← acceptPunctuator .ellipsis then
    let expression ← inner.assignment true
    finish start (.spread expression)
  else inner.assignment true

def arrayLiteral (inner : Productions) : Parse NodeId := do
  let start ← here
  expectPunctuator .openBracket
  let elements ← many do
    if ← isAtPunctuator .closeBracket then return none
    if ← acceptPunctuator .comma then return some none
    let element ← arrayElement inner
    separator .closeBracket
    return some (some element)
  advance
  finish start (.arrayLiteral elements)

def startsKey (kind : TokenKind) : Bool :=
  kind.isWord || kind = .string || kind = .number || kind = .punctuator .openBracket

/-- `get` and `set` open an accessor if a key follows; otherwise they are keys themselves. -/
def accessorKind? : Parse (Option AccessorKind) := do
  let found ←
    if ← isAtName "get" then pure (some AccessorKind.getter)
    else if ← isAtName "set" then pure (some AccessorKind.setter)
    else pure none
  match found with
  | some kind => if startsKey (← peek) then return some kind else return none
  | none => return none

/-- The number of parameters that an accessor has to have, and the error if it does not. -/
def AccessorKind.arity : AccessorKind → Nat × SyntaxError
  | .getter => (0, .getterParameters)
  | .setter => (1, .setterParameters)

def accessorProperty (inner : Productions) (start : Nat) (kind : AccessorKind) : Parse NodeId := do
  advance
  let (key, computed) ← propertyKey inner
  let functionStart ← here
  let parts ← signatureAndBody inner none
  let function ← finish functionStart (.functionExpression parts)
  let (count, error) := AccessorKind.arity kind
  if parts.parameters.length = count then
    finish start (.accessor kind key computed function)
  else failAtNode function error

def plainProperty (inner : Productions) (start : Nat) : Parse NodeId := do
  let (key, computed) ← propertyKey inner
  if ← acceptPunctuator .colon then
    let value ← inner.assignment true
    finish start (.property key computed value)
  else if !computed && (← isShorthandKey key) then
    refuseDefault
    finish start (.shorthand key)
  else if ← isAtPunctuator .openParen then fail (.unsupported .method)
  else fail (.expected Punctuator.colon.spelling)

def objectProperty (inner : Productions) : Parse NodeId := do
  let start ← here
  if ← isAtPunctuator .ellipsis then fail (.unsupported .objectSpread)
  match ← accessorKind? with
  | some kind => accessorProperty inner start kind
  | none => plainProperty inner start

def objectLiteral (inner : Productions) : Parse NodeId := do
  let start ← here
  expectPunctuator .openBrace
  let properties ← many do
    if ← isAtPunctuator .closeBrace then return none
    let property ← objectProperty inner
    separator .closeBrace
    return some property
  advance
  finish start (.objectLiteral properties)

def isConstant : Keyword → Bool
  | .thisKw => true
  | .nullKw => true
  | .trueKw => true
  | .falseKw => true
  | _ => false

def regexLiteral : Parse NodeId := do
  let start ← here
  rescanSlash
  let text ← lexeme
  advance
  finish start (.regex text)

def primary (inner : Productions) : Parse NodeId := do
  let start ← here
  match ← kind with
  | .identifier => identifier
  | .number =>
    let text ← lexeme
    advance
    finish start (.number text)
  | .string =>
    let value ← stringValue
    advance
    finish start (.string value)
  | .punctuator .slash => regexLiteral
  | .punctuator .slashAssign => regexLiteral
  | .punctuator .openParen =>
    advance
    let inside ← expression inner true
    expectPunctuator .closeParen
    finish start (.parenthesized inside)
  | .punctuator .openBracket => arrayLiteral inner
  | .punctuator .openBrace => objectLiteral inner
  | .keyword .functionKw =>
    let parts ← function inner false
    finish start (.functionExpression parts)
  | .keyword k =>
    if isConstant k then
      advance
      finish start (.constant k)
    else fail .expressionExpected
  | _ => fail .expressionExpected

/-- `new`, what it constructs and, if given, the arguments. -/
def construct (inner : Productions) : Parse NodeId := do
  let start ← here
  advance
  let calleeStart ← here
  let first ← if ← isAtKeyword .newKw then inner.construct else primary inner
  let callee ← iterate first fun callee => do
    if ← isAtMember then return some (← memberAccess inner calleeStart callee)
    return none
  let arguments ← if ← isAtPunctuator .openParen then callArguments inner else pure []
  finish start (.construct callee arguments)

/-- A primary expression followed by any number of accesses and calls. -/
def leftHandSide (inner : Productions) : Parse NodeId := do
  let start ← here
  let first ← if ← isAtKeyword .newKw then construct inner else primary inner
  iterate first fun callee => do
    if ← isAtMember then return some (← memberAccess inner start callee)
    if ← isAtPunctuator .openParen then
      let arguments ← callArguments inner
      return some (← finish start (.call callee arguments))
    return none

def unary (inner : Productions) : Parse NodeId := do
  let start ← here
  match UnaryOp.ofToken? (← kind) with
  | some op =>
    advance
    let operand ← inner.unary
    finish start (.unary op operand)
  | none =>
    let operand ← leftHandSide inner
    let t ← token
    match UpdateOp.ofToken? t.kind with
    | some op =>
      if t.lineBreak then return operand
      advance
      finish start (.update operand op)
    | none => return operand

/-- The binary operator at the current token, if it binds tighter than `minimum`. -/
def tighterOp? (allowIn : Bool) (minimum : Nat) : Parse (Option BinaryOp) := do
  let kind ← kind
  if kind = .keyword .inKw ∧ ¬ allowIn then return none
  match BinaryOp.ofToken? kind with
  | some op => if op.precedence ≤ minimum then return none else return some op
  | none => return none

/-- Operands joined by operators that bind tighter than `minimum`. -/
def binary (inner : Productions) (allowIn : Bool) (minimum : Nat) : Parse NodeId := do
  let start ← here
  let first ← unary inner
  iterate first fun left => do
    match ← tighterOp? allowIn minimum with
    | some op =>
      advance
      let right ← inner.binary allowIn op.precedence
      return some (← finish start (.binary left op right))
    | none => return none

def conditional (inner : Productions) (allowIn : Bool) : Parse NodeId := do
  let start ← here
  let condition ← binary inner allowIn 0
  if !(← acceptPunctuator .question) then return condition
  let whenTrue ← inner.assignment true
  expectPunctuator .colon
  let whenFalse ← inner.assignment allowIn
  finish start (.conditional condition whenTrue whenFalse)

def assignment (inner : Productions) (allowIn : Bool) : Parse NodeId := do
  let start ← here
  let left ← conditional inner allowIn
  match AssignmentOp.ofToken? (← kind) with
  | none => return left
  | some op =>
    let left ←
      if op = .plain then target inner left
      else if (← get).table.isSimpleTarget left then pure left
      else failAtNode left .assignmentTarget
    advance
    let right ← inner.assignment allowIn
    finish start (.assignment left op right)

end PatternLowering.Grammar

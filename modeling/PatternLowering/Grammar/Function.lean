import PatternLowering.Grammar.Binding

/-!
# Blocks and functions
-/

namespace PatternLowering.Grammar

open Parse

def block (inner : Productions) : Parse NodeId := do
  let start ← here
  expectPunctuator .openBrace
  let statements ← many do
    if ← isAtPunctuator .closeBrace then return none
    if ← isAt .endOfFile then expectPunctuator .closeBrace
    return some (← inner.statement)
  advance
  finish start (.block statements)

def parameter (inner : Productions) : Parse NodeId := do
  if ← isAtPunctuator .ellipsis then fail (.unsupported .restParameter)
  let parameter ← inner.binding
  if ← isAtPunctuator .assign then fail (.unsupported .parameterDefault)
  separator .closeParen
  return parameter

/-- The parameter list and the body of a function or an accessor. -/
def signatureAndBody (inner : Productions) (name : Option NodeId) : Parse FunctionParts := do
  expectPunctuator .openParen
  let parameters ← many do
    if ← isAtPunctuator .closeParen then return none
    return some (← parameter inner)
  advance
  let body ← block inner
  return ⟨name, parameters, body⟩

/-- A function from its keyword on. Only an expression may leave the name out. -/
def function (inner : Productions) (named : Bool) : Parse FunctionParts := do
  expectKeyword .functionKw
  let name ←
    if ← isAt .identifier then pure (some (← identifier))
    else if named then fail (.expected TokenKind.identifier.spelling)
    else pure none
  signatureAndBody inner name

end PatternLowering.Grammar

import PatternLowering.Grammar.Productions

/-!
# Names, keys and declared patterns
-/

namespace PatternLowering.Grammar

open Parse

/-- A name or a keyword in the place of a property name. -/
def word : Parse NodeId := do
  let t ← token
  if t.kind.isWord then
    let text ← lexeme
    advance
    finish t.start (.identifier text)
  else fail (.expected TokenKind.identifier.spelling)

def identifier : Parse NodeId := do
  if ← isAt .identifier then word else fail (.expected TokenKind.identifier.spelling)

/-- A property key, and whether it is an expression in brackets. -/
def propertyKey (inner : Productions) : Parse (NodeId × Bool) := do
  let start ← here
  match ← kind with
  | .punctuator .openBracket =>
    advance
    let expression ← inner.assignment true
    expectPunctuator .closeBracket
    return (expression, true)
  | .string =>
    let value ← stringValue
    advance
    return (← finish start (.string value), false)
  | .number =>
    let text ← lexeme
    advance
    return (← finish start (.number text), false)
  | _ => return (← word, false)

/-- Only a name that is no keyword may stand for both the key and the target. -/
def isShorthandKey (key : NodeId) : Parse Bool :=
  return (← name? key).any fun text => (Keyword.ofSpelling? text).isNone

def refuseDefault : Parse Unit := do
  if ← isAtPunctuator .assign then fail (.unsupported .patternDefault)

def bindingProperty (inner : Productions) : Parse NodeId := do
  let start ← here
  if ← isAtPunctuator .ellipsis then fail (.unsupported .objectRest)
  let (key, computed) ← propertyKey inner
  let (key, value) ←
    if ← acceptPunctuator .colon then pure (some key, ← inner.binding)
    else if !computed && (← isShorthandKey key) then pure (none, key)
    else fail (.expected Punctuator.colon.spelling)
  refuseDefault
  finish start (.bindingProperty key computed value)

def objectPattern (inner : Productions) : Parse NodeId := do
  let start ← here
  expectPunctuator .openBrace
  let properties ← many do
    if ← isAtPunctuator .closeBrace then return none
    let property ← bindingProperty inner
    separator .closeBrace
    return some property
  advance
  finish start (.objectPattern properties)

/-- A rest element, which has to be followed by the closing bracket at once. -/
def restBinding (inner : Productions) : Parse NodeId := do
  let start ← here
  advance
  let argument ← inner.binding
  let rest ← finish start (.restElement argument)
  if ← isAtPunctuator .closeBracket then return rest else fail .restNotLast

def arrayPattern (inner : Productions) : Parse NodeId := do
  let start ← here
  expectPunctuator .openBracket
  let elements ← many do
    if ← isAtPunctuator .closeBracket then return none
    if ← acceptPunctuator .comma then return some none
    if ← isAtPunctuator .ellipsis then return some (some (← restBinding inner))
    let element ← inner.binding
    refuseDefault
    separator .closeBracket
    return some (some element)
  advance
  finish start (.arrayPattern elements)

/-- A declared variable or a declared pattern. -/
def binding (inner : Productions) : Parse NodeId := do
  match ← kind with
  | .punctuator .openBrace => objectPattern inner
  | .punctuator .openBracket => arrayPattern inner
  | _ => identifier

end PatternLowering.Grammar

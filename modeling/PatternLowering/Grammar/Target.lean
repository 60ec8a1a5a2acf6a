import PatternLowering.Grammar.Productions

/-!
# Assignment targets

What stands on the left of an equals sign is first read as an expression. Object and array literals
there become patterns, at every depth; everything else has to be a variable or a property access.
-/

namespace PatternLowering.Grammar

open Parse

/-- Turns an expression into an assignment target. -/
def target (inner : Productions) (n : NodeId) : Parse NodeId := do
  match ← form? n with
  | some (.arrayLiteral _) => inner.literal n
  | some (.objectLiteral _) => inner.literal n
  | some (.objectPattern _) => return n
  | some (.arrayPattern _) => return n
  | _ => if (← get).table.isSimpleTarget n then return n else failAtNode n .patternTarget

/-- Turns an element of an array literal into a target. A spread element has to be the last. -/
def elementTarget (inner : Productions) (isLast : Bool) (element : NodeId) : Parse Unit := do
  match ← form? element with
  | some (.spread expression) =>
    if isLast then
      let argument ← target inner expression
      reinterpret element (.restElement argument)
    else failAtNode element .restNotLast
  | _ => discard (target inner element)

def elementTargets (inner : Productions) : List (Option NodeId) → Parse Unit
  | [] => return ()
  | none :: later => elementTargets inner later
  | some element :: later => do
    elementTarget inner later.isEmpty element
    elementTargets inner later

/-- Turns a property of an object literal into a binding property. -/
def propertyTarget (inner : Productions) (property : NodeId) : Parse Unit := do
  match ← form? property with
  | some (.property key computed value) =>
    let value ← target inner value
    reinterpret property (.bindingProperty (some key) computed value)
  | some (.shorthand name) => reinterpret property (.bindingProperty none false name)
  | _ => failAtNode property .patternTarget

def propertyTargets (inner : Productions) : List NodeId → Parse Unit
  | [] => return ()
  | property :: later => do
    propertyTarget inner property
    propertyTargets inner later

/-- Turns a literal into a pattern. -/
def literal (inner : Productions) (n : NodeId) : Parse NodeId := do
  match ← form? n with
  | some (.arrayLiteral elements) =>
    elementTargets inner elements
    reinterpret n (.arrayPattern elements)
  | some (.objectLiteral properties) =>
    propertyTargets inner properties
    reinterpret n (.objectPattern properties)
  | _ => pure ()
  return n

end PatternLowering.Grammar

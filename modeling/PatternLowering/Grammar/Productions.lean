import PatternLowering.Grammar.Parse

/-!
# Nested productions

The productions that may contain themselves. Each rule of the grammar is written over the
productions one level further in, and the levels are counted: at the last one every production
refuses to start.
-/

namespace PatternLowering

/-- `allowIn` tells whether `in` may be an operator. A `literal` is turned into a pattern in place.
-/
structure Productions where
  statement : Parse NodeId
  binding : Parse NodeId
  assignment : (allowIn : Bool) → Parse NodeId
  binary : (allowIn : Bool) → (minimum : Nat) → Parse NodeId
  unary : Parse NodeId
  construct : Parse NodeId
  literal : NodeId → Parse NodeId

/-- No nesting is left. -/
def Productions.exhausted : Productions where
  statement := Parse.fail .tooDeep
  binding := Parse.fail .tooDeep
  assignment _ := Parse.fail .tooDeep
  binary _ _ := Parse.fail .tooDeep
  unary := Parse.fail .tooDeep
  construct := Parse.fail .tooDeep
  literal _ := Parse.fail .tooDeep

end PatternLowering

import PatternLowering.Node

/-!
# Operators

Which tokens are operators, and how tightly the binary ones bind: from 1, `||`, to 10, the products.
Operators of one level group from the left.
-/

namespace PatternLowering

def AssignmentOp.ofToken? : TokenKind → Option AssignmentOp
  | .punctuator .assign => some .plain
  | .punctuator .plusAssign => some .add
  | .punctuator .minusAssign => some .subtract
  | .punctuator .timesAssign => some .multiply
  | .punctuator .slashAssign => some .divide
  | .punctuator .percentAssign => some .remainder
  | .punctuator .shiftLeftAssign => some .shiftLeft
  | .punctuator .shiftRightAssign => some .shiftRight
  | .punctuator .shiftRightZeroAssign => some .shiftRightZero
  | .punctuator .andAssign => some .bitAnd
  | .punctuator .orAssign => some .bitOr
  | .punctuator .xorAssign => some .bitXor
  | _ => none

def BinaryOp.ofToken? : TokenKind → Option BinaryOp
  | .punctuator .orOr => some .logicalOr
  | .punctuator .andAnd => some .logicalAnd
  | .punctuator .or => some .bitOr
  | .punctuator .xor => some .bitXor
  | .punctuator .and => some .bitAnd
  | .punctuator .equal => some .equal
  | .punctuator .notEqual => some .notEqual
  | .punctuator .identical => some .identical
  | .punctuator .notIdentical => some .notIdentical
  | .punctuator .less => some .less
  | .punctuator .greater => some .greater
  | .punctuator .lessEqual => some .lessEqual
  | .punctuator .greaterEqual => some .greaterEqual
  | .keyword .instanceofKw => some .instanceOf
  | .keyword .inKw => some .isIn
  | .punctuator .shiftLeft => some .shiftLeft
  | .punctuator .shiftRight => some .shiftRight
  | .punctuator .shiftRightZero => some .shiftRightZero
  | .punctuator .plus => some .add
  | .punctuator .minus => some .subtract
  | .punctuator .times => some .multiply
  | .punctuator .slash => some .divide
  | .punctuator .percent => some .remainder
  | _ => none

def BinaryOp.precedence : BinaryOp → Nat
  | logicalOr => 1
  | logicalAnd => 2
  | bitOr => 3
  | bitXor => 4
  | bitAnd => 5
  | equal => 6
  | notEqual => 6
  | identical => 6
  | notIdentical => 6
  | less => 7
  | greater => 7
  | lessEqual => 7
  | greaterEqual => 7
  | instanceOf => 7
  | isIn => 7
  | shiftLeft => 8
  | shiftRight => 8
  | shiftRightZero => 8
  | add => 9
  | subtract => 9
  | multiply => 10
  | divide => 10
  | remainder => 10

def UpdateOp.ofToken? : TokenKind → Option UpdateOp
  | .punctuator .increment => some .increment
  | .punctuator .decrement => some .decrement
  | _ => none

def UnaryOp.ofToken? : TokenKind → Option UnaryOp
  | .punctuator .not => some .not
  | .punctuator .tilde => some .bitNot
  | .punctuator .minus => some .negate
  | .punctuator .plus => some .plus
  | .keyword .typeofKw => some .typeOf
  | .keyword .voidKw => some .void
  | .keyword .deleteKw => some .delete
  | kind => (UpdateOp.ofToken? kind).map .update

end PatternLowering

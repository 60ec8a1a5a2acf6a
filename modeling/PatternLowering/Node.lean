import PatternLowering.Token

/-!
# Nodes

The pieces of a parsed program. A node refers to its parts by their numbers in a table, so that a
piece of text keeps its number when it turns out to be a pattern rather than a literal.
-/

namespace PatternLowering

abbrev NodeId := Nat

/-- A number that no node has. -/
def noNode : NodeId := 0xffffffff

inductive DeclarationKind where
  | var
  | lexical
  | const
deriving DecidableEq, Repr

def DeclarationKind.keyword : DeclarationKind → Keyword
  | var => .varKw
  | lexical => .letKw
  | const => .constKw

inductive AccessorKind where
  | getter
  | setter
deriving DecidableEq, Repr

/-- The operator of an assignment; `plain` is the bare equals sign. -/
inductive AssignmentOp where
  | plain
  | add
  | subtract
  | multiply
  | divide
  | remainder
  | shiftLeft
  | shiftRight
  | shiftRightZero
  | bitAnd
  | bitOr
  | bitXor
deriving DecidableEq, Repr

inductive BinaryOp where
  | logicalOr
  | logicalAnd
  | bitOr
  | bitXor
  | bitAnd
  | equal
  | notEqual
  | identical
  | notIdentical
  | less
  | greater
  | lessEqual
  | greaterEqual
  | instanceOf
  | isIn
  | shiftLeft
  | shiftRight
  | shiftRightZero
  | add
  | subtract
  | multiply
  | divide
  | remainder
deriving DecidableEq, Repr

inductive UpdateOp where
  | increment
  | decrement
deriving DecidableEq, Repr

/-- The operators that stand before their operand. -/
inductive UnaryOp where
  | not
  | bitNot
  | negate
  | plus
  | typeOf
  | void
  | delete
  | update (op : UpdateOp)
deriving DecidableEq, Repr

structure FunctionParts where
  name : Option NodeId
  parameters : List NodeId
  body : NodeId
deriving DecidableEq, Repr

/-- What a node is. A missing part is `none`; in a list of elements it is a hole. A binding property
without a key is a shorthand, whose key is the name of its target. -/
inductive Form where
  | program (statements : List NodeId)
  | variableStatement (list : NodeId)
  | declarationList (kind : DeclarationKind) (declarators : List NodeId)
  | declarator (target : NodeId) (value : Option NodeId)
  | functionDeclaration (parts : FunctionParts)
  | expressionStatement (expression : NodeId)
  | block (statements : List NodeId)
  | ifStatement (condition consequent : NodeId) (alternative : Option NodeId)
  | forStatement (start condition step : Option NodeId) (body : NodeId)
  | forEach (isOf : Bool) (head subject body : NodeId)
  | whileStatement (condition body : NodeId)
  | doStatement (body condition : NodeId)
  | switchStatement (subject : NodeId) (clauses : List NodeId)
  | caseClause (test : Option NodeId) (statements : List NodeId)
  | tryStatement (body : NodeId) (handler finalizer : Option NodeId)
  | catchClause (binding body : NodeId)
  | throwStatement (expression : NodeId)
  | labeledStatement (label body : NodeId)
  | withStatement (subject body : NodeId)
  | returnStatement (expression : Option NodeId)
  | breakStatement (label : Option NodeId)
  | continueStatement (label : Option NodeId)
  | debuggerStatement
  | emptyStatement
  | identifier (name : String)
  | number (text : String)
  | string (value : Option String)
  | regex (text : String)
  | constant (keyword : Keyword)
  | arrayLiteral (elements : List (Option NodeId))
  | objectLiteral (properties : List NodeId)
  | property (key : NodeId) (computed : Bool) (value : NodeId)
  | accessor (kind : AccessorKind) (key : NodeId) (computed : Bool) (function : NodeId)
  | shorthand (name : NodeId)
  | spread (expression : NodeId)
  | member (object name : NodeId)
  | element (object key : NodeId)
  | call (callee : NodeId) (arguments : List NodeId)
  | construct (callee : NodeId) (arguments : List NodeId)
  | parenthesized (expression : NodeId)
  | sequence (expressions : List NodeId)
  | assignment (target : NodeId) (op : AssignmentOp) (value : NodeId)
  | binary (left : NodeId) (op : BinaryOp) (right : NodeId)
  | conditional (condition whenTrue whenFalse : NodeId)
  | unary (op : UnaryOp) (operand : NodeId)
  | update (operand : NodeId) (op : UpdateOp)
  | functionExpression (parts : FunctionParts)
  | objectPattern (properties : List NodeId)
  | arrayPattern (elements : List (Option NodeId))
  | bindingProperty (key : Option NodeId) (computed : Bool) (target : NodeId)
  | restElement (target : NodeId)
deriving DecidableEq, Repr

def FunctionParts.children (parts : FunctionParts) : List NodeId :=
  parts.name.toList ++ parts.parameters ++ [parts.body]

namespace Form

/-- The parts of a node in the order of the text, holes left out. -/
def children : Form → List NodeId
  | program statements => statements
  | variableStatement list => [list]
  | declarationList _ declarators => declarators
  | declarator target value => target :: value.toList
  | functionDeclaration parts => parts.children
  | expressionStatement expression => [expression]
  | block statements => statements
  | ifStatement condition consequent alternative => condition :: consequent :: alternative.toList
  | forStatement start condition step body =>
    start.toList ++ condition.toList ++ step.toList ++ [body]
  | forEach _ head subject body => [head, subject, body]
  | whileStatement condition body => [condition, body]
  | doStatement body condition => [body, condition]
  | switchStatement subject clauses => subject :: clauses
  | caseClause test statements => test.toList ++ statements
  | tryStatement body handler finalizer => body :: (handler.toList ++ finalizer.toList)
  | catchClause binding body => [binding, body]
  | throwStatement expression => [expression]
  | labeledStatement label body => [label, body]
  | withStatement subject body => [subject, body]
  | returnStatement expression => expression.toList
  | breakStatement label => label.toList
  | continueStatement label => label.toList
  | debuggerStatement => []
  | emptyStatement => []
  | identifier _ => []
  | number _ => []
  | string _ => []
  | regex _ => []
  | constant _ => []
  | arrayLiteral elements => elements.filterMap id
  | objectLiteral properties => properties
  | property key _ value => [key, value]
  | accessor _ key _ function => [key, function]
  | shorthand name => [name]
  | spread expression => [expression]
  | member object name => [object, name]
  | element object key => [object, key]
  | call callee arguments => callee :: arguments
  | construct callee arguments => callee :: arguments
  | parenthesized expression => [expression]
  | sequence expressions => expressions
  | assignment target _ value => [target, value]
  | binary left _ right => [left, right]
  | conditional condition whenTrue whenFalse => [condition, whenTrue, whenFalse]
  | unary _ operand => [operand]
  | update operand _ => [operand]
  | functionExpression parts => parts.children
  | objectPattern properties => properties
  | arrayPattern elements => elements.filterMap id
  | bindingProperty key _ target => key.toList ++ [target]
  | restElement target => [target]

def isObjectPattern : Form → Bool
  | objectPattern _ => true
  | _ => false

def isArrayPattern : Form → Bool
  | arrayPattern _ => true
  | _ => false

def isPattern (form : Form) : Bool := form.isObjectPattern || form.isArrayPattern

/-- The name that an identifier spells. -/
def name? : Form → Option String
  | identifier name => some name
  | _ => none

/-- The parts of a function, declared or not. -/
def function? : Form → Option FunctionParts
  | functionDeclaration parts => some parts
  | functionExpression parts => some parts
  | _ => none

end Form

/-- A node spans the bytes from `start`, where its first token starts, up to `stop`, where its last
token ends. -/
structure Node where
  start : Nat
  stop : Nat
  parent : Option NodeId
  form : Form
deriving DecidableEq, Repr

def Node.width (n : Node) : Nat := n.stop - n.start

/-- The range in 32 bits. A node never stops before it starts. -/
def Node.in32 (n : Node) : Node :=
  { n with start := low32 n.start, stop := max (low32 n.start) (low32 n.stop) }

end PatternLowering

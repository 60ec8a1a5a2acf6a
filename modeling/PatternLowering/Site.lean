import PatternLowering.Failure
import PatternLowering.Node.Table

/-!
# Sites

A site is a pattern that is not part of another one. What can be done with it depends on where it
stands.
-/

namespace PatternLowering

/-- Where a node stands, as far as lowering is concerned. -/
inductive SitePosition where
  | declaration (declarator : NodeId) (kind : DeclarationKind) (value : Option NodeId)
  | assignment (assignment value : NodeId)
  | loopHead (isOf : Bool)
  | parameter
  | nested
  | other
deriving DecidableEq, Repr

namespace SitePosition

def place? : SitePosition → Option Place
  | loopHead false => some .forIn
  | loopHead true => some .forOf
  | parameter => some .parameters
  | _ => none

end SitePosition

namespace Table

def isObjectPattern (t : Table) (n : NodeId) : Bool := (t.form? n).any Form.isObjectPattern

def isArrayPattern (t : Table) (n : NodeId) : Bool := (t.form? n).any Form.isArrayPattern

def parentForm? (t : Table) (n : NodeId) : Option Form := (t.parent? n).bind t.form?

/-- The keyword of the list that a declarator stands in. -/
def declarationKind? (t : Table) (n : NodeId) : Option DeclarationKind :=
  match t.parentForm? n with
  | some (.declarationList kind _) => some kind
  | _ => none

/-- The node that stands in a list of declarations for the declarator `n`; any other `n` itself. -/
def declarationHead? (t : Table) (n : NodeId) : Option NodeId :=
  match t.form? n with
  | some (.declarator _ _) => t.parent? n
  | _ => some n

/-- If the node, or the list it is declared in, is the head of a loop over the items of something:
whether these are values (`of`) rather than keys (`in`). -/
def loopHead? (t : Table) (n : NodeId) : Option Bool :=
  match t.declarationHead? n with
  | none => none
  | some head =>
    match t.parentForm? head with
    | some (.forEach isOf first _ _) => if first = head then some isOf else none
    | _ => none

/-- The node is a pattern in the parameter list of a function. -/
def isParameter (t : Table) (n : NodeId) : Bool :=
  match (t.parentForm? n).bind Form.function? with
  | some parts => parts.parameters.contains n
  | none => false

def isSequence (t : Table) (n : NodeId) : Bool :=
  match t.form? n with
  | some (.sequence _) => true
  | _ => false

/-- An accessor can follow the text of the node only in parentheses. -/
def needsParens (t : Table) (n : NodeId) : Bool :=
  match t.form? n with
  | some (.identifier _) => false
  | some (.member _ _) => false
  | some (.element _ _) => false
  | some (.call _ _) => false
  | some (.parenthesized _) => false
  | some (.arrayLiteral _) => false
  | some (.objectLiteral _) => false
  | some (.string _) => false
  | some (.regex _) => false
  | some (.constant _) => false
  | _ => true

def isParenthesized (t : Table) (n : NodeId) : Bool :=
  match t.form? n with
  | some (.parenthesized _) => true
  | _ => false

/-- The position of a declarator's target. -/
def declarationPosition (t : Table) (declarator : NodeId) (value : Option NodeId) : SitePosition :=
  match t.loopHead? declarator with
  | some isOf => .loopHead isOf
  | none =>
    match t.declarationKind? declarator with
    | some kind => .declaration declarator kind value
    | none => .other

def sitePosition (t : Table) (n : NodeId) : SitePosition :=
  match t.parent? n with
  | none => .other
  | some parent =>
    match t.form? parent with
    | some (.declarator target value) =>
      if target = n then t.declarationPosition parent value else .other
    | some (.assignment target .plain value) =>
      if target = n then .assignment parent value else .other
    | some (.forEach _ _ _ _) =>
      match t.loopHead? n with
      | some isOf => .loopHead isOf
      | none => .other
    | some (.functionDeclaration _) => if t.isParameter n then .parameter else .other
    | some (.functionExpression _) => if t.isParameter n then .parameter else .other
    | some (.bindingProperty _ _ _) => .nested
    | some (.arrayPattern _) => .nested
    | some (.restElement _) => .nested
    | _ => .other

end Table

end PatternLowering

import PatternLowering.Failure
import PatternLowering.Node.Table
import PatternLowering.Token.Lexeme

/-!
# Patterns

A pattern on its own: what it reads from its value, in order, and where each part goes. Holes read
nothing; they only show in the positions of the items after them.
-/

namespace PatternLowering

/-- How a part is read from the value of a pattern. -/
inductive Accessor where
  | member (name : String)
  | literal (text : String)
  | computed (text : String)
  | item (index : Nat)
  | rest (index : Nat)
deriving DecidableEq, Repr

namespace Accessor

def text : Accessor → String
  | member name => "." ++ name
  | literal text => "[" ++ text ++ "]"
  | computed text => "[" ++ text ++ "]"
  | item index => "[" ++ toString index ++ "]"
  | rest index => ".slice(" ++ toString index ++ ")"

end Accessor

/-- A variable, or any other expression that can be assigned to. -/
inductive Target where
  | named (name : String)
  | reference (text : String)
deriving DecidableEq, Repr

namespace Target

def text : Target → String
  | named name => name
  | reference text => text

def name? : Target → Option String
  | named name => some name
  | reference _ => none

end Target

/-- The parts of a pattern: each is assigned to a target or taken apart by a nested pattern. -/
inductive Pattern where
  | done
  | leaf (accessor : Accessor) (target : Target) (later : Pattern)
  | nested (accessor : Accessor) (inner later : Pattern)
deriving DecidableEq, Repr

namespace Pattern

/-- The number of parts, nested patterns counting as one. -/
def count : Pattern → Nat
  | done => 0
  | leaf _ _ later => later.count + 1
  | nested _ _ later => later.count + 1

/-- The variables bound at any depth, in order. -/
def names : Pattern → List String
  | done => []
  | leaf _ target later => target.name?.toList ++ later.names
  | nested _ inner later => inner.names ++ later.names

/-- The variable that the last part is assigned to. -/
def lastName? : Pattern → Option String
  | done => none
  | leaf _ target done => target.name?
  | leaf _ _ later => later.lastName?
  | nested _ _ later => later.lastName?

end Pattern

/-- A word that may follow the dot of a member access. -/
def isIdentifierName (word : String) : Bool :=
  match word.toList with
  | [] => false
  | c :: rest =>
    isNameStart c && rest.all fun c => c = '_' || c = '$' || Letters.isAlphanumeric c

namespace Pattern

/-- The text of a node with the edits inside it applied. -/
def nodeText (t : Table) (buffer : EditBuffer) (n : NodeId) : Except Fault String :=
  match t.get? n with
  | some node => .ok (String.ofList (buffer.get node.start node.stop))
  | none => .error (.nodeMissing n)

def keyAccessor (t : Table) (buffer : EditBuffer) (key : NodeId) : Except Fault Accessor :=
  match t.form? key with
  | some (.identifier name) => .ok (.member name)
  | some (.string value) =>
    match value with
    | some word => if isIdentifierName word then .ok (.member word) else literalKey
    | none => literalKey
  | some (.number _) => literalKey
  | _ => .error (.unexpectedKey key)
where
  literalKey : Except Fault Accessor := (nodeText t buffer key).map .literal

/-- How a property is read. A shorthand is read by the name of its target. -/
def propertyAccessor (t : Table) (buffer : EditBuffer) (key : Option NodeId) (computed : Bool)
    (target : NodeId) : Except Fault Accessor :=
  match key with
  | none =>
    match t.name? target with
    | some name => .ok (.member name)
    | none => .error .namelessShorthand
  | some key =>
    if computed then (nodeText t buffer key).map .computed else keyAccessor t buffer key

/-- The parts of an object pattern. -/
def propertyParts (t : Table) (buffer : EditBuffer) :
    List NodeId → Except Fault (List (Accessor × NodeId))
  | [] => .ok []
  | property :: later =>
    match t.form? property with
    | some (.bindingProperty key computed target) => do
      let accessor ← propertyAccessor t buffer key computed target
      return (accessor, target) :: (← propertyParts t buffer later)
    | _ => .error (.notBindingProperty property)

/-- The parts of an array pattern from the item at `index` on. -/
def itemParts (t : Table) (index : Nat) :
    List (Option NodeId) → Except Fault (List (Accessor × NodeId))
  | [] => .ok []
  | none :: later => itemParts t (index + 1) later
  | some element :: later =>
    match t.form? element with
    | some (.restElement target) =>
      if later.isEmpty then .ok [(.rest index, target)] else .error .restNotLast
    | _ => do return (.item index, element) :: (← itemParts t (index + 1) later)

/-- Assembles a pattern from its parts; `inner` reads nested patterns. -/
def assemble (t : Table) (buffer : EditBuffer) (inner : NodeId → Except Fault Pattern) :
    List (Accessor × NodeId) → Except Fault Pattern
  | [] => .ok .done
  | (accessor, target) :: later =>
    if t.isPattern target then do
      return .nested accessor (← inner target) (← assemble t buffer inner later)
    else
      match t.name? target with
      | some name => do return .leaf accessor (.named name) (← assemble t buffer inner later)
      | none => do
        let text ← nodeText t buffer target
        return .leaf accessor (.reference text) (← assemble t buffer inner later)

def readWithin (t : Table) (buffer : EditBuffer) : Nat → NodeId → Except Fault Pattern
  | 0, n => .error (.notLevel n)
  | bound + 1, n =>
    match t.form? n with
    | some (.objectPattern properties) => do
      assemble t buffer (readWithin t buffer bound) (← propertyParts t buffer properties)
    | some (.arrayPattern elements) => do
      assemble t buffer (readWithin t buffer bound) (← itemParts t 0 elements)
    | _ => .error (.notLevel n)

/-- Reads the pattern at a node. Keys and targets that are expressions are taken with the edits
inside them applied. -/
def read (t : Table) (buffer : EditBuffer) (n : NodeId) : Except Fault Pattern :=
  readWithin t buffer (t.size + 1) n

end Pattern

end PatternLowering

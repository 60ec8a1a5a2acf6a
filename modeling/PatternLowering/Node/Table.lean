import PatternLowering.Node

/-!
# Node tables

Nodes are numbered in the order in which they are finished, so the parts of a node come before it.
Adding a node makes it the parent of its parts, and so does changing what a node is.
-/

namespace PatternLowering

structure Table where
  nodes : Array Node
deriving DecidableEq, Repr

namespace Table

def empty : Table := ⟨#[]⟩

def size (t : Table) : Nat := t.nodes.size

def get? (t : Table) (n : NodeId) : Option Node := t.nodes[n]?

def form? (t : Table) (n : NodeId) : Option Form := (t.get? n).map (·.form)

def parent? (t : Table) (n : NodeId) : Option NodeId := (t.get? n).bind (·.parent)

def children (t : Table) (n : NodeId) : List NodeId := ((t.form? n).map Form.children).getD []

/-- The name that an identifier node spells. -/
def name? (t : Table) (n : NodeId) : Option String := (t.form? n).bind Form.name?

def isPattern (t : Table) (n : NodeId) : Bool := (t.form? n).any Form.isPattern

/-- Changes one node, if it is there. -/
def update (t : Table) (n : NodeId) (f : Node → Node) : Table :=
  if h : n < t.nodes.size then ⟨t.nodes.set n (f t.nodes[n])⟩ else t

/-- Makes `parent` the parent of `parts`. -/
def adopt (t : Table) (parent : NodeId) (parts : List NodeId) : Table :=
  parts.foldl (fun t part => t.update part fun node => { node with parent := some parent }) t

/-- Adds a node without a parent, as the parent of its parts. -/
def add (t : Table) (start stop : Nat) (form : Form) : NodeId × Table :=
  let t' := t.adopt t.size form.children
  (t.size, ⟨t'.nodes.push ⟨start, stop, none, form⟩⟩)

/-- Changes what a node is; its range and its parent stay. -/
def reinterpret (t : Table) (n : NodeId) (form : Form) : Table :=
  (t.update n fun node => { node with form := form }).adopt n form.children

def ancestorsWithin (t : Table) : Nat → NodeId → List NodeId
  | 0, _ => []
  | bound + 1, n => n :: ((t.parent? n).map (t.ancestorsWithin bound)).getD []

/-- A node, its parent, the parent of that, and so on. Parents have greater numbers than their
parts, so the table's size bounds the chain. -/
def ancestors (t : Table) (n : NodeId) : List NodeId := t.ancestorsWithin (t.size + 1) n

def isSimpleTargetWithin (t : Table) : Nat → NodeId → Bool
  | 0, _ => false
  | bound + 1, n =>
    match t.form? n with
    | some (.identifier _) => true
    | some (.member _ _) => true
    | some (.element _ _) => true
    | some (.parenthesized expression) => t.isSimpleTargetWithin bound expression
    | _ => false

/-- A variable or a property access, possibly in parentheses. -/
def isSimpleTarget (t : Table) (n : NodeId) : Bool := t.isSimpleTargetWithin (t.size + 1) n

def patternPartsWithin (t : Table) : Nat → NodeId → List NodeId
  | 0, _ => []
  | bound + 1, n =>
    match t.form? n with
    | none => []
    | some (.objectPattern properties) =>
      n :: properties.flatMap (t.patternPartsWithin bound)
    | some (.arrayPattern elements) =>
      n :: (elements.filterMap id).flatMap (t.patternPartsWithin bound)
    | some (.bindingProperty _ _ target) => n :: t.patternPartsWithin bound target
    | some (.restElement target) => n :: t.patternPartsWithin bound target
    | some _ => [n]

/-- The nodes that make up a pattern, in the order of the text: nested patterns, properties, rest
elements and the targets at the leaves, but not the keys. -/
def patternParts (t : Table) (n : NodeId) : List NodeId := t.patternPartsWithin (t.size + 1) n

/-- The variables that a pattern binds, in the order of the text. A property access binds none. -/
def boundNames (t : Table) (n : NodeId) : List String := (t.patternParts n).filterMap t.name?

/-- A walk over a pattern with a stack of the nodes that are still to come, and the names so far. -/
structure NameWalk where
  names : List String
  stack : List NodeId
deriving DecidableEq, Repr

/-- Takes the topmost node off the stack and puts its parts there, the first one on top. -/
def NameWalk.round (t : Table) : NameWalk → NameWalk
  | ⟨names, []⟩ => ⟨names, []⟩
  | ⟨names, n :: stack⟩ =>
    match t.form? n with
    | some (.identifier name) => ⟨names ++ [name], stack⟩
    | some (.objectPattern properties) =>
      ⟨names, properties.reverse.foldl (fun s p => p :: s) stack⟩
    | some (.arrayPattern elements) =>
      ⟨names, (elements.reverse.filterMap id).foldl (fun s p => p :: s) stack⟩
    | some (.bindingProperty _ _ target) => ⟨names, target :: stack⟩
    | some (.restElement target) => ⟨names, target :: stack⟩
    | _ => ⟨names, stack⟩

/-- Some key of the pattern, at any depth, is an expression in brackets. -/
def hasComputedKeys (t : Table) (n : NodeId) : Bool :=
  (t.patternParts n).any fun part =>
    match t.form? part with
    | some (.bindingProperty _ computed _) => computed
    | _ => false

/-- The expressions inside a pattern, in the order of the text: computed keys, and the targets that
are no plain variables. -/
def patternExpressions (t : Table) (n : NodeId) : List NodeId :=
  (t.patternParts n).flatMap fun part =>
    match t.form? part with
    | some (.bindingProperty (some key) true _) => [key]
    | some (.bindingProperty _ _ _) => []
    | some (.restElement _) => []
    | some (.identifier _) => []
    | some form => if form.isPattern then [] else [part]
    | none => []

end Table

end PatternLowering

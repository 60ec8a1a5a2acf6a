import PatternLowering.Node.Table
import PatternLowering.TempRegistry

/-!
# Hoist scopes

The program and every function in it are the scopes in which a `var` is visible throughout. They are
numbered in the order of the text, the program first. Each has its own temporaries, and none of
these is spelled like an identifier anywhere in the file.
-/

namespace PatternLowering

/-- How deeply the passes over a node table descend. -/
def maxTreeDepth : Nat := 500

abbrev ScopeId := Nat

structure Scope where
  node : Option NodeId
  parent : Option ScopeId
  declared : List String
  temps : TempRegistry
deriving DecidableEq, Repr

/-- `identifiers` are the different spellings in the file. -/
structure Scopes where
  entries : Array Scope
  identifiers : List String
deriving DecidableEq, Repr

namespace Scopes

def empty : Scopes := ⟨#[], []⟩

/-- Forgets all scopes and spellings. -/
def cleared (s : Scopes) : Scopes := { s with entries := #[], identifiers := [] }

def get? (s : Scopes) (id : ScopeId) : Option Scope := s.entries[id]?

def update (s : Scopes) (id : ScopeId) (f : Scope → Scope) : Scopes :=
  if h : id < s.entries.size then { s with entries := s.entries.set id (f s.entries[id]) } else s

def push (s : Scopes) (node : Option NodeId) (parent : Option ScopeId) : ScopeId × Scopes :=
  (s.entries.size, { s with entries := s.entries.push ⟨node, parent, [], .empty⟩ })

def declare (s : Scopes) (id : ScopeId) (names : List String) : Scopes :=
  s.update id fun scope =>
    { scope with declared := names.foldl (fun found name => found.insert name) scope.declared }

/-- The scope that a node opens. -/
def opened? (s : Scopes) (n : NodeId) : Option ScopeId :=
  s.entries.findIdx? fun scope => scope.node = some n

/-- The scope of the nearest node around `n`, or `n` itself, that opens one; else the program. -/
def closest (s : Scopes) (t : Table) (n : NodeId) : ScopeId :=
  ((t.ancestors n).findSome? s.opened?).getD 0

/-- Where the temporaries of `id` are kept: there, or with the program if there is no such scope. -/
def keeper (s : Scopes) (id : ScopeId) : ScopeId := if id < s.entries.size then id else 0

/-- A program scope to keep temporaries in, if there is no scope at all. -/
def ensured (s : Scopes) : Scopes := if s.entries.isEmpty then (s.push none none).2 else s

def temps (s : Scopes) (id : ScopeId) : TempRegistry :=
  ((s.get? id).map (·.temps)).getD .empty

def setTemps (s : Scopes) (id : ScopeId) (r : TempRegistry) : Scopes :=
  s.update id fun scope => { scope with temps := r }

def acquire (s : Scopes) (id : ScopeId) : String × Scopes :=
  let s := s.ensured
  let id := s.keeper id
  let (name, r) := (s.temps id).acquire s.identifiers
  (name, s.setTemps id r)

def claim (s : Scopes) (id : ScopeId) : String × Scopes :=
  let s := s.ensured
  let id := s.keeper id
  let (name, r) := (s.temps id).claim s.identifiers
  (name, s.setTemps id r)

/-- Tells whether the name was in use. -/
def release (s : Scopes) (id : ScopeId) (name : String) : Bool × Scopes :=
  let s := s.ensured
  let id := s.keeper id
  let (known, r) := (s.temps id).release name
  (known, s.setTemps id r)

def declaredTemps (s : Scopes) (id : ScopeId) : List String := (s.temps id).declared

end Scopes

/-- Scopes under construction, with the nodes that lay too deep to be looked at. -/
structure Binding where
  scopes : Scopes
  skipped : List NodeId
deriving DecidableEq, Repr

namespace Binding

/-- What a node declares and opens; gives the scope of its parts. A function's name belongs to the
scope around a declaration and to the function's own scope in an expression. -/
def enter (t : Table) (scope : ScopeId) (n : NodeId) (form : Form) (s : Scopes) :
    ScopeId × Scopes :=
  match form with
  | .functionDeclaration parts =>
    let s := s.declare scope (parts.name.bind t.name?).toList
    let (inner, s) := s.push (some n) (some scope)
    (inner, s.declare inner (parts.parameters.flatMap t.boundNames))
  | .functionExpression parts =>
    let (inner, s) := s.push (some n) (some scope)
    (inner, s.declare inner
      ((parts.name.bind t.name?).toList ++ parts.parameters.flatMap t.boundNames))
  | .declarator target _ => (scope, s.declare scope (t.boundNames target))
  | _ => (scope, s)

def bind (t : Table) : Nat → ScopeId → NodeId → Binding → Binding
  | 0, _, n, b => { b with skipped := b.skipped ++ [n] }
  | depth + 1, scope, n, b =>
    match t.form? n with
    | none => b
    | some form =>
      let (inner, scopes) := enter t scope n form b.scopes
      form.children.foldl (fun b part => bind t depth inner part b) { b with scopes := scopes }

/-- The identifiers spelled anywhere in the table, each once. -/
def spellings (t : Table) : List String :=
  (t.nodes.toList.filterMap fun node => node.form.name?).eraseDups

/-- Binds a program to scopes that may have been in use before. -/
def rebind (used : Scopes) (t : Table) (root : NodeId) : Binding :=
  let s := { used.cleared with identifiers := spellings t }
  let (scope, scopes) := s.push (some root) none
  bind t (maxTreeDepth + 1) scope root ⟨scopes, []⟩

/-- The scopes of a program. -/
def ofTable (t : Table) (root : NodeId) : Binding := rebind .empty t root

end Binding

end PatternLowering

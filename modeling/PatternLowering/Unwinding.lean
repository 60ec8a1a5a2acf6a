import PatternLowering.Event
import PatternLowering.Pattern

/-!
# Unwinding

A pattern is taken apart depth first into bindings: plain assignments, in the order of its leaves.
Each pattern reads its value through one reference. If that has to be assigned to a name first, the
assignment is part of the first read.
-/

namespace PatternLowering

/-- How deeply patterns may nest. -/
def maxPatternDepth : Nat := 100

/-- What stands on the right of a binding. `source` is the value of the site as it is written. -/
inductive Expr where
  | source (text : String)
  | named (name : String)
  | parens (inside : Expr)
  | assign (name : String) (value : Expr)
  | access (object : Expr) (accessor : Accessor)
deriving DecidableEq, Repr

namespace Expr

def text : Expr → String
  | source text => text
  | named name => name
  | parens inside => "(" ++ inside.text ++ ")"
  | assign name value => "(" ++ name ++ " = " ++ value.text ++ ")"
  | access object accessor => object.text ++ accessor.text

end Expr

/-- One item of the output. The trailing one carries the value of an assignment. -/
structure FlatBinding where
  target : Option Target
  value : Expr
  trailing : Bool
deriving DecidableEq, Repr

namespace FlatBinding

def text (b : FlatBinding) : String :=
  match b.target with
  | some target => target.text ++ " = " ++ b.value.text
  | none => b.value.text

end FlatBinding

/-- The value that a pattern takes apart: a variable; another expression as written, with whether it
needs parentheses before an accessor and whether it is a sequence; or a part of an outer value. -/
inductive Value where
  | named (name : String)
  | written (text : String) (wrapped isSequence : Bool)
  | part (value : Expr)
deriving DecidableEq, Repr

namespace Value

/-- The value where an accessor may follow. -/
def forAccess : Value → Expr
  | named name => .named name
  | written text wrapped _ => if wrapped then .parens (.source text) else .source text
  | part value => value

/-- The value as an item of a comma-separated list. -/
def forItem : Value → Expr
  | named name => .named name
  | written text _ isSequence => if isSequence then .parens (.source text) else .source text
  | part value => value

end Value

/-- Whether the name that holds a value is a temporary or one that the pattern binds itself. -/
inductive Holder where
  | temporary
  | ownName
deriving DecidableEq, Repr

/-- The reads of one value that are still to come. An assigned name has its assignment as the first
of them. -/
inductive Reads where
  | repeatable (value : Expr)
  | once (value : Option Expr)
  | assigned (first : Option Expr) (name : String) (holder : Holder)
deriving DecidableEq, Repr

namespace Reads

def next : Reads → Except Fault (Expr × Reads)
  | repeatable value => .ok (value, repeatable value)
  | once (some value) => .ok (value, once none)
  | once none => .error .readTwice
  | assigned (some first) name holder => .ok (first, assigned none name holder)
  | assigned none name holder => .ok (.named name, assigned none name holder)

/-- An assignment that nobody read would be lost. -/
def check : Reads → Except Fault Unit
  | assigned (some _) _ _ => .error .neverAssigned
  | _ => .ok ()

def reference : Reads → Reference
  | repeatable _ => .direct
  | once _ => .inline
  | assigned _ _ .ownName => .ownName
  | assigned _ _ .temporary => .temporary

end Reads

/-- What stays the same while one site is unwound. With `retain`, its temporaries are not given
back: they may still be needed by a site around it. Names of its own serve as references only
without computed keys, which could read them. -/
structure Setting where
  context : SiteContext
  scope : ScopeId
  retain : Bool
  computedKeys : Bool
deriving DecidableEq, Repr

/-- What changes: `reserved` are the names that hold an outer value, `temps` counts the temporaries.
-/
structure Workbench where
  scopes : Scopes
  reserved : List String
  temps : Nat
  log : Array Event
deriving DecidableEq, Repr

abbrev Unwind := EStateM Fault Workbench

namespace Unwind

def ofExcept {α : Type} : Except Fault α → Unwind α
  | .ok a => pure a
  | .error fault => throw fault

def record (event : Event) : Unwind Unit := modify fun w => { w with log := w.log.push event }

/-- Does `body` and then, whether it failed or not, `last`. -/
def thenAlways {α : Type} (body : Unwind α) (last : Workbench → Workbench) : Unwind α := fun w =>
  match body w with
  | .ok a w' => .ok a (last w')
  | .error fault w' => .error fault (last w')

def acquire (setting : Setting) : Unwind String := modifyGet fun w =>
  let (name, scopes) := w.scopes.acquire setting.scope
  (name, { w with
    scopes := scopes
    temps := w.temps + 1
    log := w.log.push (.acquired (scopes.keeper setting.scope) name) })

def claim (setting : Setting) : Unwind String := modifyGet fun w =>
  let (name, scopes) := w.scopes.claim setting.scope
  (name, { w with scopes := scopes })

/-- The last variable that the pattern binds, if it can hold the value until then: in a `var`
declaration, bound nowhere else in the pattern and not holding an outer value. -/
def ownName? (setting : Setting) (pattern : Pattern) (reserved : List String) : Option String :=
  if setting.context = .declaration .var ∧ ¬ setting.computedKeys then
    match pattern.lastName? with
    | some name =>
      if pattern.names.count name = 1 ∧ name ∉ reserved then some name else none
    | none => none
  else none

/-- Assigns a value to a name before it is read. -/
def hold (setting : Setting) (pattern : Pattern) (value : Expr) : Unwind Reads := do
  match ownName? setting pattern (← get).reserved with
  | some name =>
    modify fun w => { w with reserved := name :: w.reserved }
    return .assigned (some (.assign name value)) name .ownName
  | none =>
    let name ← acquire setting
    return .assigned (some (.assign name value)) name .temporary

/-- Chooses how `consumers` reads get at a value. A variable that the pattern itself assigns cannot
be read again; any other expression cannot be evaluated again. -/
def resolve (setting : Setting) (pattern : Pattern) (value : Value) (consumers : Nat) :
    Unwind Reads := do
  match value with
  | .named name =>
    if 1 < consumers ∧ name ∈ pattern.names then hold setting pattern value.forItem
    else return .repeatable (.named name)
  | _ =>
    if consumers ≤ 1 then return .once (some value.forAccess)
    else hold setting pattern value.forItem

/-- Gives a reference back. -/
def release (setting : Setting) (reads : Reads) (w : Workbench) : Workbench :=
  match reads with
  | .assigned _ name .temporary =>
    if setting.retain then w
    else
      let (known, scopes) := w.scopes.release setting.scope name
      { w with
        scopes := scopes
        log := if known then w.log
          else w.log.push (.notInUse (scopes.keeper setting.scope) name) }
  | .assigned _ name .ownName => { w with reserved := w.reserved.erase name }
  | _ => w

/-- A pattern without parts still evaluates its value once. -/
def emptyLevel (setting : Setting) (value : Value) (isTop : Bool) : Unwind (List FlatBinding) := do
  match setting.context with
  | .declaration _ =>
    let name ← claim setting
    return [⟨some (.named name), value.forItem, false⟩]
  | .assignment => return [⟨none, value.forItem, isTop⟩]

/-- Unwinds one pattern; `parts` unwinds its parts with the reads of its value. -/
def level (setting : Setting) (pattern : Pattern) (value : Value) (isTop : Bool) (depth : Nat)
    (parts : Reads → Unwind (List FlatBinding × Reads)) : Unwind (List FlatBinding) := do
  if maxPatternDepth ≤ depth then throw .tooDeep
  if pattern.count = 0 then return ← emptyLevel setting value isTop
  let trailing := isTop && setting.context = .assignment
  let consumers := pattern.count + if trailing then 1 else 0
  let reads ← resolve setting pattern value consumers
  record (.unwinding depth consumers reads.reference)
  let (bindings, left) ← thenAlways (parts reads) (release setting reads)
  ofExcept left.check
  return bindings

/-- Unwinds the parts of a pattern, then, if it is `trailing`, reads the whole value. -/
def parts (setting : Setting) : Pattern → Nat → Bool → Reads → Unwind (List FlatBinding × Reads)
  | .done, _, trailing, reads => do
    if trailing then
      let (value, reads) ← ofExcept reads.next
      return ([⟨none, value, true⟩], reads)
    else return ([], reads)
  | .leaf accessor target later, depth, trailing, reads => do
    let (value, reads) ← ofExcept reads.next
    let binding : FlatBinding := ⟨some target, .access value accessor, false⟩
    let (bindings, reads) ← parts setting later depth trailing reads
    return (binding :: bindings, reads)
  | .nested accessor inner later, depth, trailing, reads => do
    let (value, reads) ← ofExcept reads.next
    let first ← level setting inner (.part (.access value accessor)) false (depth + 1)
      (parts setting inner (depth + 1) false)
    let (bindings, reads) ← parts setting later depth trailing reads
    return (first ++ bindings, reads)

/-- Unwinds the pattern of a site. -/
def site (setting : Setting) (pattern : Pattern) (value : Value) : Unwind (List FlatBinding) :=
  level setting pattern value true 0
    (parts setting pattern 0 (setting.context = .assignment))

end Unwind

end PatternLowering

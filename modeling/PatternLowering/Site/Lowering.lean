import PatternLowering.Site
import PatternLowering.Unwinding

/-!
# Lowering one site

The bindings of a site and the text that takes the place of its declarator or assignment.
-/

namespace PatternLowering

structure LoweredSite where
  context : SiteContext
  start : Nat
  stop : Nat
  bindings : List FlatBinding
  parenthesize : Bool
  temps : Nat
deriving DecidableEq, Repr

namespace LoweredSite

def joined (site : LoweredSite) : String := ", ".intercalate (site.bindings.map (·.text))

/-- The text that replaces the bytes from `start` up to `stop`. -/
def replacement (site : LoweredSite) : String :=
  if site.parenthesize then "(" ++ site.joined ++ ")" else site.joined

/-- The site by itself, with the keyword of a declaration. -/
def render (site : LoweredSite) : String :=
  match site.context with
  | .declaration kind => kind.keyword.spelling ++ " " ++ site.joined
  | .assignment => site.replacement

end LoweredSite

/-- A position that can be lowered: the context, the node that is replaced and the value. -/
structure Lowerable where
  context : SiteContext
  whole : NodeId
  value : NodeId
deriving DecidableEq, Repr

namespace Table

/-- What there is to lower at a node, or why nothing is. -/
def lowerable (t : Table) (n : NodeId) : Except Failure Lowerable :=
  if !t.isPattern n then .error (.internal (.notPattern n))
  else
    let position := t.sitePosition n
    match position.place? with
    | some place => .error (.unsupported place)
    | none =>
      match position with
      | .declaration declarator kind (some value) => .ok ⟨.declaration kind, declarator, value⟩
      | .declaration _ _ none => .error .missingInitializer
      | .assignment whole value => .ok ⟨.assignment, whole, value⟩
      | .nested => .error (.internal (.notLowerable n "Nested"))
      | _ => .error (.internal (.notLowerable n "Other"))

/-- The value of a site. -/
def siteValue (t : Table) (buffer : EditBuffer) (n : NodeId) : Except Fault Value :=
  match t.name? n with
  | some name => .ok (.named name)
  | none => do
    return .written (← Pattern.nodeText t buffer n) (t.needsParens n) (t.isSequence n)

/-- The pattern, the value and the setting in which a site is unwound. -/
def siteParts (t : Table) (buffer : EditBuffer) (scopes : Scopes) (n : NodeId) (retain : Bool) :
    Except Failure (Lowerable × Node × Setting × Pattern × Value) := do
  let site ← t.lowerable n
  let some whole := t.get? site.whole | .error (.internal .siteMissing)
  let pattern ← (Pattern.read t buffer n).mapError .internal
  let value ← (t.siteValue buffer site.value).mapError .internal
  let setting := ⟨site.context, scopes.closest t n, retain, t.hasComputedKeys n⟩
  return (site, whole, setting, pattern, value)

/-- Lowers the site at a node. Also when that fails, the scopes and the events are what it left. -/
def lowerSite (t : Table) (buffer : EditBuffer) (n : NodeId) (retain : Bool) (scopes : Scopes)
    (log : Array Event) : Except Failure LoweredSite × Scopes × Array Event :=
  match t.siteParts buffer scopes n retain with
  | .error failure => (.error failure, scopes, log)
  | .ok (site, whole, setting, pattern, value) =>
    match Unwind.site setting pattern value ⟨scopes, [], 0, log⟩ with
    | .error fault w => (.error (.internal fault), w.scopes, w.log)
    | .ok bindings w =>
      let lowered : LoweredSite :=
        { context := site.context
          start := whole.start
          stop := whole.stop
          bindings := bindings
          parenthesize := site.context = .assignment &&
            !((t.parent? site.whole).any t.isParenthesized)
          temps := w.temps }
      (.ok lowered, w.scopes,
        w.log.push (.lowered whole.start site.context bindings.length w.temps))

end Table

end PatternLowering

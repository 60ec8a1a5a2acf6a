import PatternLowering.Failure
import PatternLowering.Scope

/-!
# Events

What happens while a file is lowered, for those who want to follow it.
-/

namespace PatternLowering

inductive Level where
  | trace
  | debug
  | warn
  | error
deriving DecidableEq, Repr

def Level.name : Level → String
  | trace => "TRACE"
  | debug => "DEBUG"
  | warn => "WARN"
  | error => "ERROR"

/-- The statement or expression that a site is part of. -/
inductive SiteContext where
  | declaration (kind : DeclarationKind)
  | assignment
deriving DecidableEq, Repr

/-- How a site is called in events. -/
def SiteContext.label : SiteContext → String
  | declaration .var => "Declaration(Var)"
  | declaration .lexical => "Declaration(Let)"
  | declaration .const => "Declaration(Const)"
  | assignment => "Assignment"

/-- How a pattern gets at its value: the variable that holds it, the expression itself where only
one part needs it, or a name that is assigned first, either one of its own or a temporary. -/
inductive Reference where
  | direct
  | inline
  | ownName
  | temporary
deriving DecidableEq, Repr

def Reference.label : Reference → String
  | direct => "direct"
  | inline => "inline"
  | ownName => "local"
  | temporary => "temp"

inductive Event where
  | parsed (file : String) (statements nodes errors : Nat)
  | parseFailed (errors : Nat)
  | bound (scopes identifiers : Nat)
  | bindingTooDeep (n : NodeId)
  | acquired (scope : ScopeId) (name : String)
  | notInUse (scope : ScopeId) (name : String)
  | unwinding (depth consumers : Nat) (reference : Reference)
  | lowered (start : Nat) (context : SiteContext) (bindings temps : Nat)
  | leftUnchanged (start : Nat) (failure : Failure)
  | internalFailure (start : Nat) (failure : Failure)
  | skipped (file : String) (line : Nat) (failure : Failure)
  | loweringTooDeep (n : NodeId)
  | finished (file : String) (sites edits replacements diagnostics : Nat)
deriving DecidableEq, Repr

namespace Event

def level : Event → Level
  | parsed .. => .debug
  | parseFailed .. => .debug
  | bound .. => .debug
  | bindingTooDeep .. => .warn
  | acquired .. => .trace
  | notInUse .. => .warn
  | unwinding .. => .trace
  | lowered .. => .debug
  | leftUnchanged .. => .warn
  | internalFailure .. => .error
  | skipped .. => .error
  | loweringTooDeep .. => .warn
  | finished .. => .debug

def message : Event → String
  | parsed .. => "parsed source file"
  | parseFailed .. => "parse failed; no output"
  | bound .. => "bound source file"
  | bindingTooDeep .. => "binder depth limit reached; skipping subtree"
  | acquired .. => "acquired temporary"
  | notInUse .. => "released a temporary that was not in use"
  | unwinding .. => "unwinding level"
  | lowered .. => "lowered destructuring site"
  | leftUnchanged .. => "destructuring left unchanged"
  | internalFailure .. => "internal lowering failure"
  | skipped .. => "destructuring site skipped"
  | loweringTooDeep .. => "lowering depth limit reached; subtree left unchanged"
  | finished .. => "lowering pass finished"

/-- The values that go with the message. -/
def fields : Event → List (String × String)
  | parsed file statements nodes errors =>
    [("file", file), ("statements", toString statements), ("nodes", toString nodes),
     ("errors", toString errors)]
  | parseFailed errors => [("errors", toString errors)]
  | bound scopes identifiers =>
    [("scopes", toString scopes), ("identifiers", toString identifiers)]
  | bindingTooDeep n => [("node", toString n)]
  | acquired scope name => [("scope", toString scope), ("name", name)]
  | notInUse scope name => [("scope", toString scope), ("name", name)]
  | unwinding depth consumers reference =>
    [("depth", toString depth), ("consumers", toString consumers),
     ("reference", reference.label)]
  | lowered start context bindings temps =>
    [("start", toString start), ("context", context.label), ("bindings", toString bindings),
     ("temps", toString temps)]
  | leftUnchanged start failure => [("start", toString start), ("error", failure.message)]
  | internalFailure start failure => [("start", toString start), ("error", failure.message)]
  | skipped file line failure =>
    [("file", file), ("line", toString line), ("error", failure.message)]
  | loweringTooDeep n => [("node", toString n)]
  | finished file sites edits replacements diagnostics =>
    [("file", file), ("sites", toString sites), ("edits", toString edits),
     ("replacements", toString replacements), ("diagnostics", toString diagnostics)]

end Event

end PatternLowering

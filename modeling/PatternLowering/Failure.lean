import PatternLowering.Diagnostic
import PatternLowering.Edit
import PatternLowering.Node

/-!
# Failures

Why a destructuring site is left as it is, and how that is reported.
-/

namespace PatternLowering

/-- The places where patterns may stand but are not lowered. -/
inductive Place where
  | forIn
  | forOf
  | parameters
deriving DecidableEq, Repr

def Place.phrase : Place → String
  | forIn => "a for-in head"
  | forOf => "a for-of head"
  | parameters => "a parameter list"

/-- What should not happen to the patterns of a parsed program, apart from `tooDeep`. A fault of any
other kind is `described` by its message. -/
inductive Fault where
  | notPattern (n : NodeId)
  | notLowerable (n : NodeId) (position : String)
  | siteMissing
  | nodeMissing (n : NodeId)
  | notLevel (n : NodeId)
  | notBindingProperty (n : NodeId)
  | namelessShorthand
  | unexpectedKey (n : NodeId)
  | restNotLast
  | readTwice
  | neverAssigned
  | tooDeep
  | described (message : String)
deriving DecidableEq, Repr

def Fault.message : Fault → String
  | notPattern n => s!"node {n} is not a destructuring pattern"
  | notLowerable n position => s!"pattern {n} is not a lowerable site ({position})"
  | siteMissing => "site node missing"
  | nodeMissing n => s!"missing node {n}"
  | notLevel n => s!"node {n} is not a pattern"
  | notBindingProperty n => s!"node {n} is not a binding property"
  | namelessShorthand => "shorthand property without an identifier"
  | unexpectedKey n => s!"unexpected property key {n}"
  | restNotLast => "rest element is not last"
  | readTwice => "single-use value was read twice"
  | neverAssigned => "temporary assignment was never emitted"
  | tooDeep => "destructuring pattern nested too deeply"
  | described message => message

inductive Failure where
  | missingInitializer
  | unsupported (place : Place)
  | edit (error : EditError)
  | internal (fault : Fault)
deriving DecidableEq, Repr

namespace Failure

/-- A failure that no program should cause. -/
def isInternal : Failure → Bool
  | missingInitializer => false
  | unsupported _ => false
  | edit _ => true
  | internal _ => true

def message : Failure → String
  | missingInitializer => "destructuring must have an initializer"
  | unsupported place => s!"destructuring in {place.phrase} is not lowered"
  | edit (.invalidRange start stop) => s!"invalid edit range {start}..{stop}"
  | edit (.overlap start stop) => s!"edit {start}..{stop} overlaps an earlier replacement"
  | internal fault => fault.message

end Failure

/-- How patterns in places that are not lowered are reported. -/
inductive Policy where
  | warn
  | error
deriving DecidableEq, Repr

namespace Policy

def name : Policy → String
  | warn => "warn"
  | error => "error"

/-- Reads a policy in upper or lower case. -/
def ofName? (word : String) : Option Policy :=
  match Letters.lowerAscii word with
  | "warn" => some warn
  | "warning" => some warn
  | "error" => some error
  | _ => none

def category : Policy → Category
  | warn => .warning
  | error => .error

end Policy

namespace Failure

def code : Failure → Nat
  | missingInitializer => 2001
  | unsupported _ => 2002
  | edit _ => 2003
  | internal _ => 2003

def template : Failure → String
  | missingInitializer => "destructuring must have an initializer"
  | unsupported _ => "destructuring in \x7b0\x7d is not lowered; the pattern is left unchanged"
  | edit _ => "internal error while lowering destructuring: \x7b0\x7d"
  | internal _ => "internal error while lowering destructuring: \x7b0\x7d"

def arguments : Failure → List String
  | missingInitializer => []
  | unsupported place => [place.phrase]
  | failure => [failure.message]

def category (policy : Policy) : Failure → Category
  | unsupported _ => policy.category
  | _ => .error

/-- The report of a failure about the bytes from `start` up to `stop`. -/
def diagnostic (file : String) (lines : LineMap) (policy : Policy) (start stop : Nat)
    (failure : Failure) : Diagnostic where
  category := failure.category policy
  code := failure.code
  file := file
  start := start
  length := stop - start
  line := lines.lineOf start
  text := Message.fill failure.template failure.arguments

end Failure

end PatternLowering

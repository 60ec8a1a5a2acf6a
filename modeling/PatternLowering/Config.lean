import PatternLowering.Json.Reader
import PatternLowering.Json.Relaxed
import PatternLowering.Pass
import PatternLowering.Path

/-!
# Configuration files

A configuration is an object in relaxed JSON with four known fields, or a list of their values in a
fixed order. It is read field by field, so the first fault is the one that is told. Fields with
other names are passed over.
-/

namespace PatternLowering

/-- The settings of a configuration file; a field that is missing or null is not set. -/
structure Config where
  unsupportedContext : Option String
  tempDeclarations : Option Bool
  outDir : Option String
  files : Option (List String)
deriving DecidableEq, Repr

namespace Config

def empty : Config := ⟨none, none, none, none⟩

def fileName : Path := .ofString "esdown.json"

inductive Field where
  | unsupportedContext
  | tempDeclarations
  | outDir
  | files
deriving DecidableEq, Repr

namespace Field

/-- All fields, in the order of a configuration written as a list. -/
def all : List Field := [unsupportedContext, tempDeclarations, outDir, files]

def name : Field → String
  | unsupportedContext => "unsupportedContext"
  | tempDeclarations => "tempDeclarations"
  | outDir => "outDir"
  | files => "files"

def ofName? (name : Text) : Option Field := all.find? (·.name.toList == name)

end Field

open Json Json.Reader

/-- Nothing for null. -/
def optional {α : Type} (reader : Reader α) : Reader (Option α) := do
  match ← significant? with
  | some 'n' => advance 1; word "ull".toList; pure none
  | _ => some <$> reader

def text : Reader String := do
  match ← significant? with
  | some '"' => advance 1; return String.ofList (← string)
  | _ => wrongKind "a string"

def texts : Reader (List String) := do
  match ← significant? with
  | some '[' => advance 1; items text
  | _ => wrongKind "a sequence"

/-- How deep lists and objects may nest in the place of a flag. -/
def maxFlagLevels : Nat := 126

/-- Passes over the end of an object, if it comes next. -/
def passObjectEnd : Reader Unit := do
  if (← significant?) = some '}' then advance 1

/-- Passes over the end of a list or of an item, if it comes next. -/
def passListEnd : Reader Unit := do
  match ← significant? with
  | some ']' => advance 1
  | some ',' => advance 1; let _ ← significant?
  | _ => pure ()

/-- True or false, as such or as a string. Anything else is told after `pass`. -/
def flag (pass : Reader Unit) : Reader Bool := do
  match ← value maxFlagLevels with
  | .bool b => pure b
  | .string text =>
    if text = "true".toList then pure true
    else if text = "false".toList then pure false
    else pass; misfit (.notFlag (.string text))
  | other => pass; misfit (.notFlag other)

/-- Reads the value of a field. -/
def set (config : Config) (pass : Reader Unit) : Field → Reader Config
  | .unsupportedContext => return { config with unsupportedContext := ← optional text }
  | .tempDeclarations => return { config with tempDeclarations := ← optional (flag pass) }
  | .outDir => return { config with outDir := ← optional text }
  | .files => return { config with files := ← optional texts }

/-- Reads fields up to the end of an object, at most `steps` of them. A known field comes once. -/
def objectWithin (config : Config) (seen : List Field) (first : Bool) : Nat → Reader Config
  | 0 => pure config
  | steps + 1 => do
    if ← moreFields first then
      match Field.ofName? (← fieldName) with
      | some field =>
        if field ∈ seen then
          passObjectEnd
          misfit (.repeatedField field.name)
        colon
        objectWithin (← config.set passObjectEnd field) (field :: seen) false steps
      | none =>
        colon
        skip
        objectWithin config seen false steps
    else pure config

/-- Reads items for the given fields, as far as there are any. -/
def listFor (config : Config) (first : Bool) : List Field → Reader Config
  | [] => pure config
  | field :: fields => do
    if ← moreItems first then listFor (← config.set passListEnd field) false fields
    else pure config

/-- Takes the end of a list that has no more items to give. -/
def closeList : Reader Unit := do
  match ← significant? with
  | none => ended .list
  | some ']' => advance 1
  | some ',' =>
    advance 1
    let next ← significant?
    malformedAhead (if next = some ']' then .trailingComma else .trailingText)
  | some _ => malformedAhead .trailingText

def reader : Reader Config := do
  match ← significant? with
  | some '{' =>
    advance 1
    let config ← objectWithin empty [] true ((← get).rest.length + 1)
    advance 1
    return config
  | some '[' =>
    advance 1
    let config ← listFor empty true Field.all
    closeList
    return config
  | _ => wrongKind "struct EsdownConfig"

/-- Reads a configuration in relaxed JSON. -/
def read (text : Text) : Except ReadError Config := reader.run (strict text)

end Config

/-- What a run works with: how to lower, where to write and what to read. -/
structure Settings where
  lowering : Options
  outDir : Option Path
  files : List Path
deriving DecidableEq, Repr

def Settings.default : Settings := ⟨.default, none, []⟩

namespace Config

/-- The policy is neither of the two words for one. -/
structure UnknownPolicy where
  word : String
deriving DecidableEq, Repr

def UnknownPolicy.message (unknown : UnknownPolicy) : String :=
  s!"unsupportedContext must be \"warn\" or \"error\", got \"{unknown.word}\""

def policy (config : Config) : Except UnknownPolicy Policy :=
  match config.unsupportedContext with
  | none => .ok Options.default.policy
  | some word =>
    match Policy.ofName? word with
    | some policy => .ok policy
    | none => .error ⟨word⟩

/-- The settings that a configuration asks for, its paths seen from `base`. -/
def settings (config : Config) (base : Path) : Except UnknownPolicy Settings := do
  let lowering : Options :=
    ⟨← config.policy, config.tempDeclarations.getD Options.default.tempDeclarations⟩
  return ⟨lowering, config.outDir.map fun dir => base.join (.ofString dir),
    (config.files.getD []).map fun file => base.join (.ofString file)⟩

end Config

end PatternLowering

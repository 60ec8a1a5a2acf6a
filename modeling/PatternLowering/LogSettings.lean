import PatternLowering.Text.Letters

/-!
# Log settings

Logging is asked for by environment variables: one holds the filter, with a fallback that is looked
at only when the first is not set at all, and one names the format.
-/

namespace PatternLowering

inductive LogFormat where
  | text
  | tree
  | json
deriving DecidableEq, Repr

namespace LogFormat

/-- Reads a format name, already trimmed and in lower case. Nothing stands for plain text. -/
def ofName? : String → Option LogFormat
  | "" => some text
  | "text" => some text
  | "tree" => some tree
  | "json" => some json
  | _ => none

end LogFormat

/-- `unknownFormat` is a format name that was not understood; plain text is used instead. -/
structure LogSettings where
  filter : String
  format : LogFormat
  unknownFormat : Option String
deriving DecidableEq, Repr

namespace LogSettings

def filterVariable : String := "ESDOWN_LOG"

def fallbackVariable : String := "RUST_LOG"

def formatVariable : String := "ESDOWN_LOG_FORMAT"

def withFormat (filter : String) : Option String → LogSettings
  | none => ⟨filter, .text, none⟩
  | some value =>
    let name := Letters.lowerAscii (Letters.trim value)
    match LogFormat.ofName? name with
    | some format => ⟨filter, format, none⟩
    | none => ⟨filter, .text, some name⟩

/-- The settings that the environment asks for, or nothing if its filter is blank or missing. -/
def ofEnvironment (lookup : String → Option String) : Option LogSettings := do
  let value ← (lookup filterVariable).or (lookup fallbackVariable)
  let filter := Letters.trim value
  if filter.isEmpty then none else withFormat filter (lookup formatVariable)

end LogSettings

end PatternLowering

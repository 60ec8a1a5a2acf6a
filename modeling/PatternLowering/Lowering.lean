import PatternLowering.Grammar.Program
import PatternLowering.Pass

/-!
# Lowering files

The text of a file without destructuring in declarations and assignments. A file that does not parse
has no output.
-/

namespace PatternLowering

/-- The outcome for one file. `edits` counts the replacements and insertions in the output. -/
structure Lowering where
  file : String
  output : Option String
  diagnostics : List Diagnostic
  edits : Nat
  log : Array Event
deriving DecidableEq, Repr

namespace Lowering

def hasErrors (l : Lowering) : Bool := l.diagnostics.any Diagnostic.isError

/-- There is an output and it differs from the source. -/
def changes (l : Lowering) (source : String) : Bool :=
  match l.output with
  | some output => output != source
  | none => false

def parsedEvent (file : String) (reading : Reading) : Event :=
  .parsed file reading.statements.size reading.state.table.size reading.state.faults.length

def boundEvents (binding : Binding) : List Event :=
  binding.skipped.map .bindingTooDeep ++
    [.bound binding.scopes.entries.size binding.scopes.identifiers.length]

/-- Lowers a program that parsed without errors. -/
def ofParsed (file : String) (options : Options) (parsed : Parsed) (lines : LineMap)
    (buffer : EditBuffer) (log : Array Event) : Lowering :=
  let binding := Binding.ofTable parsed.table parsed.root
  let input : PassInput := ⟨parsed.table, file, lines, options⟩
  let start : Pass := ⟨buffer, binding.scopes, [], 0, log ++ (boundEvents binding).toArray⟩
  let pass := start.run input parsed.root
  ⟨file, some (String.ofList pass.buffer.apply), pass.diagnostics, pass.buffer.size, pass.log⟩

/-- Lowers what was read, unless it has errors. -/
def ofReading (file : String) (options : Options) (reading : Reading) (parsed : Parsed)
    (lines : LineMap) (buffer : EditBuffer) : Lowering :=
  let log := #[parsedEvent file reading]
  if parsed.hasErrors then
    let diagnostics := parsed.faults.map (SyntaxFault.diagnostic file lines)
    ⟨file, none, diagnostics, 0, log.push (.parseFailed diagnostics.length)⟩
  else ofParsed file options parsed lines buffer log

end Lowering

/-- Lowers every site of a source text. -/
def lower (file source : String) (options : Options) : Lowering :=
  let text := source.toList
  let reading := Reading.ofText text
  .ofReading file options reading reading.toParsed (.ofText text) (.ofText text)

/-- As `lower`, with every offset in 32 bits. -/
def lower32 (file source : String) (options : Options) : Lowering :=
  let text := source.toList
  let reading := Reading.ofText text
  .ofReading file options reading reading.toParsed.in32 (.ofText32 text) (.ofText32 text)

/-- Lowers files that have nothing to do with each other. -/
def lowerAll (files : List (String × String)) (options : Options) : List Lowering :=
  files.map fun (file, source) => lower32 file source options

end PatternLowering

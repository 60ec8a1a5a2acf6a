import PatternLowering.Grammar.Statement

/-!
# Programs

A text is parsed statement by statement. The result holds the whole node table, with the program as
its last node, and the errors; after an error the program holds the statements before it.
-/

namespace PatternLowering

/-- How deeply statements, expressions and patterns may nest. -/
def maxParseDepth : Nat := 500

/-- The productions with `depth` levels of nesting left. -/
def Productions.within : (depth : Nat) → Productions
  | 0 => exhausted
  | depth + 1 =>
    let inner := within depth
    { statement := Grammar.statement inner
      binding := Grammar.binding inner
      assignment := Grammar.assignment inner
      binary := Grammar.binary inner
      unary := Grammar.unary inner
      construct := Grammar.construct inner
      literal := Grammar.literal inner }

/-- How reading a program came out: its statements, why it stopped if not at the end of the text,
and what the reader knew then. -/
structure Reading where
  statements : Array NodeId
  halt : Option Halt
  state : ParseState
deriving DecidableEq, Repr

namespace Reading

def continueWithin (inner : Productions) : Nat → Array NodeId → ParseState → Reading
  | 0, found, s => ⟨found, some .exhausted, s⟩
  | bound + 1, found, s =>
    if s.scanner.token.kind = .endOfFile then ⟨found, none, s⟩
    else
      match inner.statement s with
      | .ok statement s' => continueWithin inner bound (found.push statement) s'
      | .error halt s' => ⟨found, some halt, s'⟩

/-- The state before the first token. -/
def before (text : Text) : ParseState := ⟨.ofText text, .empty, [], 0, text.size⟩

/-- The state on the first token. -/
def start (text : Text) : ParseState :=
  match Parse.advance (before text) with
  | .ok _ s => s
  | .error _ s => s

/-- Reads statements until the text ends or one fails. -/
def ofText (text : Text) : Reading :=
  continueWithin (.within maxParseDepth) (text.size + 1) #[] (start text)

end Reading

structure Parsed where
  table : Table
  root : NodeId
  faults : List SyntaxFault
deriving DecidableEq, Repr

/-- Adds the program node, which spans the whole text. -/
def Reading.toParsed (reading : Reading) : Parsed :=
  let (root, table) :=
    reading.state.table.add 0 reading.state.size (.program reading.statements.toList)
  ⟨table, root, reading.state.faults⟩

namespace Parsed

def ofText (text : Text) : Parsed := (Reading.ofText text).toParsed

/-- All ranges in 32 bits. The program then ends behind the lower 32 bits of the text's size. -/
def in32 (parsed : Parsed) : Parsed :=
  ⟨⟨parsed.table.nodes.map Node.in32⟩, parsed.root, parsed.faults.map SyntaxFault.in32⟩

def ofText32 (text : Text) : Parsed := (ofText text).in32

def diagnostics (parsed : Parsed) (file : String) (text : Text) : List Diagnostic :=
  let lines := LineMap.ofText text
  parsed.faults.map (SyntaxFault.diagnostic file lines)

def hasErrors (parsed : Parsed) : Bool := !parsed.faults.isEmpty

end Parsed

end PatternLowering

import PatternLowering.Token.Cooked
import PatternLowering.Token.Lexeme

/-!
# Scanning

A scanner stands on a token and moves to the next one. The errors it meets are kept until someone
takes them; going back to an earlier state forgets the errors found since.
-/

namespace PatternLowering

/-- `opening` is the place where the current token starts, `closing` the place just past it. -/
structure Scanner where
  token : Token
  opening : Cursor
  closing : Cursor
  faults : List SyntaxFault
deriving DecidableEq, Repr

namespace Scanner

/-- Before the first token. -/
def ofText (text : Text) : Scanner :=
  ⟨⟨.unknown, 0, 0, false⟩, .atStart text, .atStart text, []⟩

/-- The text of the current token. -/
def lexeme (s : Scanner) : Text := s.opening.textUpTo s.closing

/-- Stands on a lexeme that starts at `opening`. -/
def settle (opening : Cursor) (lexeme : Lexeme) (lineBreak : Bool) (faults : List SyntaxFault) :
    Scanner where
  token := ⟨lexeme.kind, opening.offset, lexeme.stop.offset, lineBreak⟩
  opening := opening
  closing := lexeme.stop
  faults :=
    faults ++ lexeme.error.toList.map
      fun error => ⟨opening.offset, lexeme.stop.offset - opening.offset, error⟩

/-- Moves to the next token. -/
def scan (s : Scanner) : Scanner :=
  let gap := Gap.skip s.closing
  let faults := s.faults ++ gap.openComment.toList.map fun start => ⟨start, 2, .openComment⟩
  settle gap.stop (Lexeme.read gap.stop) gap.lineBreak faults

/-- Reads a token that starts with a slash again, as a regular expression. -/
def rescanSlash (s : Scanner) : Scanner :=
  if s.token.kind = .punctuator .slash ∨ s.token.kind = .punctuator .slashAssign then
    settle s.opening (Lexeme.regex s.opening) s.token.lineBreak s.faults
  else s

/-- The cooked form of the current token between its first and its last byte. -/
def stringValue (s : Scanner) : Option Text :=
  let raw := s.lexeme
  Cooked.cook? (raw.slice 1 (max (raw.size - 1) 1))

/-- Goes back to `earlier`, keeping only as many errors as were known then. -/
def restore (s earlier : Scanner) : Scanner :=
  { earlier with faults := s.faults.take earlier.faults.length }

/-- Forgets the errors that were kept. -/
def takeFaults (s : Scanner) : List SyntaxFault × Scanner := (s.faults, { s with faults := [] })

end Scanner

end PatternLowering

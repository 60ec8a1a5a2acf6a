import PatternLowering.Text.Letters
import PatternLowering.Token.Cursor

/-!
# Gaps

What stands between two tokens: blanks, byte order marks, line breaks and comments. Of all this only
the presence of a line break matters later.
-/

namespace PatternLowering

def isLineEnd (c : Char) : Bool := c = '\n' || c = '\r'

/-- The line terminators of the language, the two Unicode separators included. -/
def isLineTerminator (c : Char) : Bool := isLineEnd c || c = '\u2028' || c = '\u2029'

/-- A blank between tokens that is no line terminator, or a byte order mark. -/
def isSpacing (c : Char) : Bool := Letters.isBlank c || c = '\ufeff'

/-- The outcome of skipping a gap. `openComment` is where a block comment starts that does not end.
-/
structure Gap where
  stop : Cursor
  lineBreak : Bool
  openComment : Option Nat
deriving DecidableEq, Repr

namespace Gap

/-- Where in a gap one is. A block comment keeps its start and whether a line ended in it so far:
that counts as a line break once the comment is closed. -/
inductive Inside where
  | spaces
  | lineComment
  | blockComment (start : Nat) (breaks : Bool)
deriving DecidableEq, Repr

def Inside.openComment : Inside → Option Nat
  | blockComment start _ => some start
  | _ => none

def skipFrom : Inside → Bool → Nat → Text → Gap
  | inside, seen, offset, [] => ⟨⟨offset, []⟩, seen, inside.openComment⟩
  | .spaces, seen, offset, '/' :: '/' :: rest => skipFrom .lineComment seen (offset + 2) rest
  | .spaces, seen, offset, '/' :: '*' :: rest =>
    skipFrom (.blockComment offset false) seen (offset + 2) rest
  | .spaces, seen, offset, c :: rest =>
    if isLineTerminator c then skipFrom .spaces true (offset + c.utf8Size) rest
    else if isSpacing c then skipFrom .spaces seen (offset + c.utf8Size) rest
    else ⟨⟨offset, c :: rest⟩, seen, none⟩
  | .lineComment, seen, offset, c :: rest =>
    if isLineEnd c then skipFrom .spaces true (offset + c.utf8Size) rest
    else skipFrom .lineComment seen (offset + c.utf8Size) rest
  | .blockComment _ breaks, seen, offset, '*' :: '/' :: rest =>
    skipFrom .spaces (seen || breaks) (offset + 2) rest
  | .blockComment start breaks, seen, offset, c :: rest =>
    skipFrom (.blockComment start (breaks || isLineEnd c)) seen (offset + c.utf8Size) rest

/-- Skips the gap at a cursor. -/
def skip (cursor : Cursor) : Gap := skipFrom .spaces false cursor.offset cursor.rest

end Gap

end PatternLowering

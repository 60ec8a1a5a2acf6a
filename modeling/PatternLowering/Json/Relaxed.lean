import PatternLowering.Text
import PatternLowering.Text.Letters

/-!
# Relaxed JSON

JSON with comments, commas before a closing bracket and strings in single quotation marks, brought
into strict form in one pass. The line feeds of comments stay, so everything keeps its line.
-/

namespace PatternLowering.Json

/-- Where a reader of relaxed JSON stands. -/
inductive Mode where
  | plain
  | lineComment
  | blockComment (star : Bool)
  | quoted (mark : Char)
deriving DecidableEq, Repr

/-- A comma whose fate depends on what comes next, with the blanks after it. -/
abbrev Pending := Option Text

namespace Pending

/-- The comma stays. -/
def keep : Pending → Text
  | none => []
  | some blanks => ',' :: blanks

/-- The comma goes. -/
def discard : Pending → Text
  | none => []
  | some blanks => blanks

/-- Adds a blank: at once, or after the comma that is still waiting. -/
def blank (c : Char) : Pending → Text × Pending
  | none => ([c], none)
  | some blanks => ([], some (blanks ++ [c]))

end Pending

/-- The strict form of what is left of a text. Inside a string nothing is pending. -/
def strictFrom : Mode → Pending → Text → Text
  | .plain, pending, [] => pending.keep
  | .plain, pending, '/' :: '/' :: rest => strictFrom .lineComment pending rest
  | .plain, pending, '/' :: '*' :: rest => strictFrom (.blockComment false) pending rest
  | .plain, pending, c :: rest =>
    if c = '"' ∨ c = '\'' then pending.keep ++ '"' :: strictFrom (.quoted c) none rest
    else if c = ',' then pending.keep ++ strictFrom .plain (some []) rest
    else if c = '}' ∨ c = ']' then pending.discard ++ c :: strictFrom .plain none rest
    else if Letters.isBlank c then
      (pending.blank c).1 ++ strictFrom .plain (pending.blank c).2 rest
    else pending.keep ++ c :: strictFrom .plain none rest
  | .lineComment, pending, [] => pending.keep
  | .lineComment, pending, c :: rest =>
    if c = '\n' then (pending.blank c).1 ++ strictFrom .plain (pending.blank c).2 rest
    else strictFrom .lineComment pending rest
  | .blockComment _, pending, [] => pending.keep
  | .blockComment star, pending, c :: rest =>
    if star ∧ c = '/' then strictFrom .plain pending rest
    else if c = '\n' then
      (pending.blank c).1 ++ strictFrom (.blockComment false) (pending.blank c).2 rest
    else strictFrom (.blockComment (c = '*')) pending rest
  | .quoted _, _, [] => ['"']
  | .quoted _, _, ['\\'] => ['\\', '"']
  | .quoted mark, _, '\\' :: c :: rest =>
    if c = '\'' then c :: strictFrom (.quoted mark) none rest
    else '\\' :: c :: strictFrom (.quoted mark) none rest
  | .quoted mark, _, c :: rest =>
    if c = mark then '"' :: strictFrom .plain none rest
    else if c = '"' then '\\' :: c :: strictFrom (.quoted mark) none rest
    else c :: strictFrom (.quoted mark) none rest

/-- The strict form of a text in relaxed JSON. A string that never ends is closed. -/
def strict (text : Text) : Text := strictFrom .plain none text

end PatternLowering.Json

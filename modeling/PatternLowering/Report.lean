import PatternLowering.Diagnostic
import PatternLowering.Json.Quoted

/-!
# Reports

Diagnostics as text for people, each with its place and the line it is about, or as JSON. The place
and the line are known only for files whose text is at hand.
-/

namespace PatternLowering

/-- A terminal style, given by the numbers of its control sequence. -/
inductive Style where
  | boldRed
  | boldYellow
  | boldCyan
  | brightBlue
  | red
deriving DecidableEq, Repr

def Style.sequence : Style → String
  | boldRed => "1;31"
  | boldYellow => "1;33"
  | boldCyan => "1;36"
  | brightBlue => "94"
  | red => "31"

def Style.paint (style : Style) (text : String) : String :=
  "\x1b[" ++ style.sequence ++ "m" ++ text ++ "\x1b[0m"

def Category.style : Category → Style
  | error => .boldRed
  | warning => .boldYellow
  | message => .boldCyan

/-- The texts of the files that diagnostics are about. -/
structure Report where
  color : Bool
  sources : List (String × Text)
deriving DecidableEq, Repr

namespace Report

/-- The text given last for a file counts. -/
def source? (report : Report) (file : String) : Option Text :=
  (report.sources.reverse.find? (·.1 == file)).map (·.2)

def paint (report : Report) (style : Style) (text : String) : String :=
  if report.color then style.paint text else text

/-- Blanks under the first `before` bytes of a line and tildes under the `length` bytes that follow,
one for each character that starts there. `offset` counts the bytes passed so far. -/
def marks (before length offset : Nat) : Text → Text
  | [] => []
  | c :: rest =>
    if offset < before then
      (if c = '\t' then '\t' else ' ') :: marks before length (offset + c.utf8Size) rest
    else if offset < before + length then
      '~' :: marks before length (offset + c.utf8Size) rest
    else []

/-- As `marks`, with one tilde at the end if there would be none. -/
def underline (before length : Nat) (line : Text) : Text :=
  let marks := marks before length 0 line
  if '~' ∈ marks then marks else marks ++ ['~']

/-- The line that starts at an offset, without its line break. -/
def lineFrom? (text : Text) (start : Nat) : Option Text :=
  (text.drop? start).map (·.takeWhile fun c => c != '\n' && c != '\r')

/-- Puts blanks before a number to fill three places. -/
def lineNumber (n : Nat) : String :=
  let digits := toString n
  String.ofList (List.replicate (3 - digits.length) ' ') ++ digits

/-- The line of the first byte of a stretch of text, with the stretch marked below it. -/
def snippet? (report : Report) (file : String) (start length : Nat) : Option String := do
  if length = 0 then none
  let text ← report.source? file
  let lines := LineMap.ofText text
  let lineStart := lines.lineStart start
  let line ← lineFrom? text lineStart
  let marks := report.paint .red (String.ofList (underline (start - lineStart) length line))
  let number := lineNumber (lines.lineOf start)
  return "\n  " ++ number ++ "   " ++ String.ofList line ++ "\n        " ++ marks

def location (report : Report) (d : Diagnostic) : String :=
  match report.source? d.file with
  | some text =>
    let place := (LineMap.ofText text).position d.start
    s!"{d.file}:{place.line}:{place.column}"
  | none => if d.file.isEmpty then "<unknown>" else s!"{d.file}:{d.line}"

def entry (report : Report) (d : Diagnostic) : String :=
  let category := report.paint d.category.style d.category.label
  let code := report.paint .brightBlue s!"ESD{d.code}"
  report.location d ++ " - " ++ category ++ " " ++ code ++ ": " ++ d.text ++
    (report.snippet? d.file d.start d.length).getD ""

def text (report : Report) (diagnostics : List Diagnostic) : String :=
  String.join (diagnostics.map fun d => report.entry d ++ "\n")

end Report

namespace Diagnostic

def jsonText (text : String) : String := String.ofList (Json.quoted text.toList)

/-- The fields of a diagnostic in the order in which JSON shows them. -/
def jsonFields (d : Diagnostic) : List (String × String) :=
  [("category", jsonText d.category.label), ("code", toString d.code), ("file", jsonText d.file),
    ("start", toString d.start), ("length", toString d.length), ("line", toString d.line),
    ("messageText", jsonText d.text)]

def json (d : Diagnostic) : String :=
  let fields := d.jsonFields.map fun (name, value) => "    " ++ jsonText name ++ ": " ++ value
  "  \x7b\n" ++ String.intercalate ",\n" fields ++ "\n  \x7d"

end Diagnostic

namespace Report

/-- The diagnostics as a JSON list, indented by two blanks a level. -/
def json (diagnostics : List Diagnostic) : String :=
  if diagnostics.isEmpty then "[]\n"
  else "[\n" ++ String.intercalate ",\n" (diagnostics.map Diagnostic.json) ++ "\n]\n"

end Report

end PatternLowering

import PatternLowering.Edit
import PatternLowering.Node.Table
import PatternLowering.Token.Gap

/-!
# Declaring temporaries

The temporaries of a scope are declared by one `var` statement at its start, but behind its
directives, the string literals that open it.
-/

namespace PatternLowering

namespace Table

/-- A statement that consists of a string literal. -/
def isDirective (t : Table) (n : NodeId) : Bool :=
  match t.form? n with
  | some (.expressionStatement expression) =>
    match t.form? expression with
    | some (.string _) => true
    | _ => false
  | _ => false

end Table

namespace TempDeclaration

def text (temps : List String) : String := "var " ++ ", ".intercalate temps ++ ";"

/-- What stands before an offset on its line. -/
def indent (source : Text) (offset : Nat) : Text :=
  ((source.slice 0 offset).reverse.takeWhile fun c => !isLineEnd c).reverse

/-- The declaration before a statement that starts at `offset`: on a line of its own if the
statement is the first thing on its line. -/
def before (source : Text) (offset : Nat) (declaration : String) : Text :=
  let indent := indent source offset
  if indent.all fun c => c = ' ' || c = '\t' then declaration.toList ++ '\n' :: indent
  else declaration.toList ++ [' ']

/-- The declaration behind directives that end at `offset`, or in an empty body. -/
def after (offset : Nat) (declaration : String) : Text :=
  if offset = 0 then declaration.toList ++ ['\n'] else '\n' :: declaration.toList

/-- Where the declaration goes, and its text. -/
def place (t : Table) (source : Text) (body : List NodeId) (declaration : String) : Nat × Text :=
  match (body.find? fun n => !t.isDirective n).bind t.get? with
  | some first => (first.start, before source first.start declaration)
  | none =>
    let offset := ((body.getLast?.bind t.get?).map (·.stop)).getD 0
    (offset, after offset declaration)

/-- Declares the temporaries, if there are any, at the start of `body`. -/
def insert (t : Table) (buffer : EditBuffer) (body : List NodeId) (temps : List String) :
    Except EditError EditBuffer :=
  if temps.isEmpty then .ok buffer
  else
    let (offset, text) := place t buffer.source body (text temps)
    buffer.insert offset text

end TempDeclaration

end PatternLowering

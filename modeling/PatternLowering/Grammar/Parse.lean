import PatternLowering.Node.Table
import PatternLowering.Token.Scanner

/-!
# Parsing steps

Parsing reads tokens and fills a node table. It stops at the first thing it does not understand;
what was read until then stays in the table.
-/

namespace PatternLowering

/-- Why parsing stopped: an error has been recorded, or a loop met its bound, which is the number of
bytes of the text and so exceeds the number of its tokens. -/
inductive Halt where
  | reported
  | exhausted
deriving DecidableEq, Repr

/-- `size` is the length of the text and `lastStop` the end of the last token that was passed. -/
structure ParseState where
  scanner : Scanner
  table : Table
  faults : List SyntaxFault
  lastStop : Nat
  size : Nat
deriving DecidableEq, Repr

abbrev Parse := EStateM Halt ParseState

namespace Parse

def token : Parse Token := return (← get).scanner.token

def kind : Parse TokenKind := return (← token).kind

/-- Where the current token starts. -/
def here : Parse Nat := return (← token).start

def lexeme : Parse String := return String.ofList (← get).scanner.lexeme

def stringValue : Parse (Option String) := return ((← get).scanner.stringValue).map String.ofList

/-- Passes over the current token. -/
def advance : Parse Unit := modify fun s =>
  let (found, scanner) := s.scanner.scan.takeFaults
  { s with scanner := scanner, faults := s.faults ++ found, lastStop := s.scanner.token.stop }

def rescanSlash : Parse Unit := modify fun s => { s with scanner := s.scanner.rescanSlash }

/-- The kind of the token after the current one. -/
def peek : Parse TokenKind := return (← get).scanner.scan.token.kind

def isAt (k : TokenKind) : Parse Bool := return (← kind) = k

def isAtPunctuator (p : Punctuator) : Parse Bool := isAt (.punctuator p)

def isAtKeyword (k : Keyword) : Parse Bool := isAt (.keyword k)

/-- The current token is the name `word`. -/
def isAtName (word : String) : Parse Bool :=
  return (← kind) = .identifier && (← lexeme) = word

def failAt (start length : Nat) (cause : SyntaxError) {α : Type} : Parse α := do
  modify fun s => { s with faults := s.faults ++ [⟨start, length, cause⟩] }
  throw .reported

/-- Fails at the current token. An unknown character has been reported when it was scanned. -/
def fail {α : Type} (cause : SyntaxError) : Parse α := do
  let t ← token
  if t.kind = .unknown then throw .reported else failAt t.start t.length cause

def failAtNode {α : Type} (n : NodeId) (cause : SyntaxError) : Parse α := do
  match (← get).table.get? n with
  | some node => failAt node.start node.width cause
  | none => failAt (← here) 0 cause

/-- Passes over the current token if it is of the kind `k`. -/
def accept (k : TokenKind) : Parse Bool := do
  if (← kind) = k then
    advance
    return true
  else return false

def acceptPunctuator (p : Punctuator) : Parse Bool := accept (.punctuator p)

def acceptKeyword (k : Keyword) : Parse Bool := accept (.keyword k)

def expect (k : TokenKind) : Parse Unit := do
  if ← accept k then return () else fail (.expected k.spelling)

def expectPunctuator (p : Punctuator) : Parse Unit := expect (.punctuator p)

def expectKeyword (k : Keyword) : Parse Unit := expect (.keyword k)

/-- Ends a statement: at a semicolon, or without one before a closing brace, at the end of the file
and after a line break. -/
def endStatement : Parse Unit := do
  if ← acceptPunctuator .semicolon then return ()
  let t ← token
  if t.kind = .punctuator .closeBrace ∨ t.kind = .endOfFile ∨ t.lineBreak then return ()
  fail (.expected Punctuator.semicolon.spelling)

/-- Adds a node that starts at `start` and ends with the last token passed. -/
def finish (start : Nat) (form : Form) : Parse NodeId := modifyGet fun s =>
  let (n, table) := s.table.add start (max s.lastStop start) form
  (n, { s with table := table })

def reinterpret (n : NodeId) (form : Form) : Parse Unit :=
  modify fun s => { s with table := s.table.reinterpret n form }

def form? (n : NodeId) : Parse (Option Form) := return (← get).table.form? n

def name? (n : NodeId) : Parse (Option String) := return (← get).table.name? n

def iterateWithin {α : Type} (step : α → Parse (Option α)) : Nat → α → Parse α
  | 0, _ => throw .exhausted
  | bound + 1, a => do
    match ← step a with
    | some a' => iterateWithin step bound a'
    | none => return a

/-- Takes steps from `a` until one gives nothing. Each step that gives something passes a token. -/
def iterate {α : Type} (a : α) (step : α → Parse (Option α)) : Parse α := do
  iterateWithin step ((← get).size + 1) a

/-- Collects what `step` gives until it gives nothing. -/
def many {α : Type} (step : Parse (Option α)) : Parse (List α) := do
  let found ← iterate (#[] : Array α) fun found => do
    match ← step with
    | some a => return some (found.push a)
    | none => return none
  return found.toList

/-- The comma after an item of a list that `close` ends; it may be left out before `close`. -/
def separator (close : Punctuator) : Parse Unit := do
  if ← isAtPunctuator close then return () else expectPunctuator .comma

end Parse

end PatternLowering

import PatternLowering.Json.Problem
import PatternLowering.Text.Letters

/-!
# Reading JSON

A reader takes strict JSON from left to right and stops at the first thing that is wrong. A fault in
the text is told at its last byte, a value of the wrong kind behind its end.
-/

namespace PatternLowering.Json

/-- What is left of the text, and where it starts. -/
structure Input where
  rest : Text
  spot : Spot
deriving DecidableEq, Repr

abbrev Reader := EStateM ReadError Input

namespace Reader

/-- Passes over the first `count` characters. -/
def advance (count : Nat) : Reader Unit :=
  modify fun s => ⟨s.rest.drop count, s.spot.after (Text.size (s.rest.take count)) s.rest⟩

def peek? : Reader (Option Char) := return (← get).rest.head?

/-- Stops `bytes` bytes further on. -/
def failAfter {α : Type} (bytes : Nat) (problem : Problem) : Reader α := do
  let s ← get
  throw ⟨problem, s.spot.after bytes s.rest⟩

/-- The text ended too early. -/
def ended {α : Type} (inside : Unfinished) : Reader α := failAfter 0 (.ended inside)

/-- What was just taken is wrong. -/
def malformed {α : Type} (how : Malformation) : Reader α := failAfter 0 (.malformed how)

/-- The byte that comes next is wrong. -/
def malformedAhead {α : Type} (how : Malformation) : Reader α := failAfter 1 (.malformed how)

/-- The value before this place will not do. -/
def misfit {α : Type} (why : Misfit) : Reader α := failAfter 0 (.misfit why)

def isBlank (c : Char) : Bool := c == ' ' || c == '\n' || c == '\t' || c == '\r'

/-- The next character that is not a blank, not taken yet. -/
def significant? : Reader (Option Char) := do
  advance ((← get).rest.takeWhile isBlank).length
  peek?

/-- Takes one given character; any other is malformed. -/
def exactly (c : Char) (inside : Unfinished) (how : Malformation) : Reader Unit := do
  match ← peek? with
  | none => ended inside
  | some d => if d = c then advance 1 else malformedAhead how

/-- Takes the rest of a word. -/
def word : Text → Reader Unit
  | [] => pure ()
  | c :: rest => do
    exactly c .value .unknownWord
    word rest

/-! ## Strings -/

/-- Four hexadecimal digits. -/
def hexUnit : Reader Nat := do
  let rest := (← get).rest
  if Text.size rest < 4 then failAfter (Text.size rest) (.ended .string)
  match (rest.take 4).mapM Letters.hexValue? with
  | some values =>
    advance 4
    pure (values.foldl (fun n d => 16 * n + d) 0)
  | none => failAfter 4 (.malformed .badEscape)

/-- The rest of a numbered escape. A pair of surrogates stands for one character, and a surrogate
outside a pair for none. -/
def numbered : Reader Char := do
  let unit ← hexUnit
  if 0xdc00 ≤ unit ∧ unit ≤ 0xdfff then malformed .loneSurrogate
  else if unit < 0xd800 ∨ 0xdbff < unit then pure (Char.ofNat unit)
  else
    exactly '\\' .string .brokenPair
    exactly 'u' .string .brokenPair
    let low ← hexUnit
    if low < 0xdc00 ∨ 0xdfff < low then malformed .loneSurrogate
    else pure (Char.ofNat (0x10000 + (unit - 0xd800) * 0x400 + (low - 0xdc00)))

/-- What a letter after a backslash stands for. -/
def escaped? : Char → Option Char
  | '"' => some '"'
  | '\\' => some '\\'
  | '/' => some '/'
  | 'b' => some '\x08'
  | 'f' => some '\x0c'
  | 'n' => some '\n'
  | 'r' => some '\r'
  | 't' => some '\t'
  | _ => none

def escape : Reader Char := do
  match ← peek? with
  | none => ended .string
  | some 'u' => advance 1; numbered
  | some c =>
    match escaped? c with
    | some d => advance 1; pure d
    | none => malformedAhead .badEscape

/-- The rest of a string, in at most `steps` characters. -/
def stringWithin : Nat → Reader Text
  | 0 => ended .string
  | steps + 1 => do
    match ← peek? with
    | none => ended .string
    | some '"' => advance 1; pure []
    | some '\\' => advance 1; return (← escape) :: (← stringWithin steps)
    | some c =>
      if c < ' ' then malformedAhead .controlCharacter
      else advance 1; return c :: (← stringWithin steps)

/-- The rest of a string whose opening mark was taken. -/
def string : Reader Text := do stringWithin (← get).rest.length

/-! ## Numbers -/

/-- The parts of a number as written; no fraction and no power of ten are told from empty ones. -/
structure Numeral where
  whole : Text
  fraction : Option Text
  power : Option (Bool × Text)
deriving DecidableEq, Repr

def digits : Reader Text := do
  let found := (← get).rest.takeWhile Char.isDigit
  advance found.length
  return found

/-- The whole part, without a needless zero in front. `early` tells of a text that ends here. -/
def whole (early : Problem) : Reader Text := do
  match ← peek? with
  | none => failAfter 0 early
  | some c =>
    if c = '0' then
      advance 1
      if ((← peek?).map Char.isDigit).getD false then malformedAhead .badNumber else pure [c]
    else if c.isDigit then digits
    else malformedAhead .badNumber

def fraction? (early : Problem) : Reader (Option Text) := do
  if (← peek?) = some '.' then
    advance 1
    let found ← digits
    if found.isEmpty then
      if (← peek?).isSome then malformedAhead .badNumber else failAfter 0 early
    else pure (some found)
  else pure none

/-- The sign of a power of ten: true if it is not negative. -/
def powerSign : Reader Bool := do
  match ← peek? with
  | some '+' => advance 1; pure true
  | some '-' => advance 1; pure false
  | _ => pure true

def power? (early : Problem) : Reader (Option (Bool × Text)) := do
  match ← peek? with
  | some c =>
    if c = 'e' ∨ c = 'E' then
      advance 1
      let positive ← powerSign
      match ← peek? with
      | none => failAfter 0 early
      | some d =>
        if d.isDigit then return some (positive, ← digits) else malformedAhead .badNumber
    else pure none
  | none => pure none

/-- A number after its sign. -/
def numeral (early : Problem) : Reader Numeral :=
  return ⟨← whole early, ← fraction? early, ← power? early⟩

/-- The largest integer of 64 bits. -/
def maxInteger : Nat := 0xffffffffffffffff

def digitValue (c : Char) : Nat := c.toNat - '0'.toNat

def natOf (digits : Text) : Nat := digits.foldl (fun n c => 10 * n + digitValue c) 0

/-- Appends digits to a significand while 64 bits hold it. Also gives the digits left over. -/
def absorb (significand : Nat) : Text → Nat × Text
  | [] => (significand, [])
  | c :: rest =>
    let longer := 10 * significand + digitValue c
    if longer ≤ maxInteger then absorb longer rest else (significand, c :: rest)

/-- The value of a number. Digits that 64 bits do not hold are dropped; those of the whole part are
made up for by the power of ten. Zero with a minus sign is a double. -/
def Numeral.value? (positive : Bool) (n : Numeral) : Option Number :=
  let (significand, dropped) := absorb 0 n.whole
  if n.fraction.isNone ∧ n.power.isNone ∧ dropped.isEmpty ∧ (positive ∨ significand ≠ 0 ∧
      significand ≤ 0x8000000000000000) then
    some (.integer (if positive then significand else -significand))
  else
    let fraction := n.fraction.getD []
    let (significand, unused) := absorb significand fraction
    let power : Int := match n.power with
      | some (true, digits) => natOf digits
      | some (false, digits) => -natOf digits
      | none => 0
    let exponent := (dropped.length : Int) - (fraction.length - unused.length : Nat) + power
    (Double.ofDecimal? significand exponent).map (.double (!positive))

/-- How many digits of a power of ten follow the one with which it outgrows 31 bits. -/
def surplus (power : Nat) : Text → Nat
  | [] => 0
  | c :: rest =>
    let longer := 10 * power + digitValue c
    if longer ≤ 0x7fffffff then surplus longer rest else rest.length

/-- A number is too large. That shows at its end, or as soon as its power of ten has outgrown 31
bits. -/
def tooLarge {α : Type} (n : Numeral) : Reader α := do
  let spot := (← get).spot
  let unread := match n.power with
    | some (_, digits) => surplus 0 digits
    | none => 0
  throw ⟨.malformed .tooLarge, ⟨spot.line, spot.column - unread⟩⟩

/-- A number after its sign, as a value. -/
def number (positive : Bool) : Reader Number := do
  let n ← numeral (.ended .value)
  match n.value? positive with
  | some value => pure value
  | none => tooLarge n

/-! ## Lists and objects -/

/-- Whether a list goes on with another item, which is not taken. -/
def moreItems (first : Bool) : Reader Bool := do
  match ← significant? with
  | none => ended .list
  | some ']' => pure false
  | some c =>
    if first then pure true
    else if c = ',' then
      advance 1
      match ← significant? with
      | none => ended .value
      | some ']' => malformedAhead .trailingComma
      | some _ => pure true
    else malformedAhead .noItemEnd

/-- Whether an object goes on with another name, which is not taken. -/
def moreFields (first : Bool) : Reader Bool := do
  match ← significant? with
  | none => ended .object
  | some '}' => pure false
  | some c =>
    if first then if c = '"' then pure true else malformedAhead .noName
    else if c = ',' then
      advance 1
      match ← significant? with
      | none => ended .value
      | some '"' => pure true
      | some '}' => malformedAhead .trailingComma
      | some _ => malformedAhead .noName
    else malformedAhead .noFieldEnd

def fieldName : Reader Text := do
  advance 1
  string

def colon : Reader Unit := do
  match ← significant? with
  | none => ended .object
  | some ':' => advance 1
  | some _ => malformedAhead .noColon

/-- The items up to the end of a list, at most `steps` of them. -/
def itemsWithin {α : Type} (item : Reader α) (first : Bool) : Nat → Reader (List α)
  | 0 => pure []
  | steps + 1 => do
    if ← moreItems first then return (← item) :: (← itemsWithin item false steps)
    else pure []

/-- The rest of a list whose opening bracket was taken. -/
def items {α : Type} (item : Reader α) : Reader (List α) := do
  let found ← itemsWithin item true ((← get).rest.length + 1)
  advance 1
  return found

/-- The fields up to the end of an object, at most `steps` of them. -/
def fieldsWithin {α : Type} (value : Reader α) (first : Bool) : Nat → Reader (List (Text × α))
  | 0 => pure []
  | steps + 1 => do
    if ← moreFields first then
      let name ← fieldName
      colon
      return (name, ← value) :: (← fieldsWithin value false steps)
    else pure []

/-- The rest of an object whose opening brace was taken. -/
def fields {α : Type} (value : Reader α) : Reader (List (Text × α)) := do
  let found ← fieldsWithin value true ((← get).rest.length + 1)
  advance 1
  return found

/-- Any value with at most `levels` lists and objects inside each other. -/
def value (levels : Nat) : Reader Json := do
  match ← significant? with
  | none => ended .value
  | some 'n' => advance 1; word "ull".toList; pure .null
  | some 't' => advance 1; word "rue".toList; pure (.bool true)
  | some 'f' => advance 1; word "alse".toList; pure (.bool false)
  | some '-' => advance 1; return .number (← number false)
  | some '"' => advance 1; return .string (← string)
  | some '[' =>
    match levels with
    | 0 => malformedAhead .tooDeep
    | levels + 1 => advance 1; return .array (← items (value levels))
  | some '{' =>
    match levels with
    | 0 => malformedAhead .tooDeep
    | levels + 1 =>
      advance 1
      let found ← fields (value levels)
      return .object (found.foldl (fun done (name, value) => setField name value done) [])
  | some c => if c.isDigit then return .number (← number true) else malformedAhead .noValue

/-- Refuses a value of the wrong kind; lists and objects are not looked into. -/
def wrongKind {α : Type} (wanted : String) : Reader α := do
  match ← significant? with
  | none => ended .value
  | some '[' => misfit (.wrongKind (.array []) wanted)
  | some '{' => misfit (.wrongKind (.object []) wanted)
  | some _ => misfit (.wrongKind (← value 0) wanted)

/-! ## Skipping -/

/-- A list or an object that is being passed over. -/
inductive Bracket where
  | list
  | object
deriving DecidableEq, Repr

namespace Bracket

def closing : Bracket → Char
  | list => ']'
  | object => '}'

def unfinished : Bracket → Unfinished
  | list => .list
  | object => .object

def noEnd : Bracket → Malformation
  | list => .noItemEnd
  | object => .noFieldEnd

end Bracket

/-- Passes over the rest of a string, in at most `steps` characters. Surrogates need not pair. -/
def skipStringWithin : Nat → Reader Unit
  | 0 => ended .string
  | steps + 1 => do
    match ← peek? with
    | none => ended .string
    | some '"' => advance 1
    | some '\\' =>
      advance 1
      match ← peek? with
      | none => ended .string
      | some 'u' => advance 1; let _ ← hexUnit; skipStringWithin steps
      | some c =>
        if (escaped? c).isSome then advance 1; skipStringWithin steps
        else malformedAhead .badEscape
    | some c =>
      if c < ' ' then malformed .controlCharacter else advance 1; skipStringWithin steps

def skipString : Reader Unit := do skipStringWithin (← get).rest.length

/-- Passes over one value, or only over the bracket that opens it. A number that ends with the text
is malformed if it is not complete. -/
def skipStart : Reader (Option Bracket) := do
  match ← significant? with
  | none => ended .value
  | some 'n' => advance 1; word "ull".toList; pure none
  | some 't' => advance 1; word "rue".toList; pure none
  | some 'f' => advance 1; word "alse".toList; pure none
  | some '-' => advance 1; let _ ← numeral (.malformed .badNumber); pure none
  | some '"' => advance 1; skipString; pure none
  | some '[' => advance 1; pure (some .list)
  | some '{' => advance 1; pure (some .object)
  | some c =>
    if c.isDigit then let _ ← numeral (.malformed .badNumber); pure none
    else malformedAhead .noValue

/-- Passes over closing brackets, up to where another item is due; gives the brackets that are still
open there. `after` tells that an item came last. -/
def skipClosing (after : Bool) : List Bracket → Reader (List Bracket)
  | [] => pure []
  | bracket :: outer => do
    match ← significant? with
    | none => ended bracket.unfinished
    | some c =>
      if after ∧ c = ',' then advance 1; pure (bracket :: outer)
      else if c = bracket.closing then advance 1; skipClosing true outer
      else if after then malformedAhead bracket.noEnd
      else pure (bracket :: outer)

/-- Passes over the name of a field and its colon. -/
def skipName : Reader Unit := do
  match ← significant? with
  | none => ended .object
  | some '"' => advance 1; skipString; colon
  | some _ => malformedAhead .noName

/-- Passes over the rest of a value inside of brackets, in at most `steps` items. -/
def skipWithin : Nat → List Bracket → Reader Unit
  | 0, _ => pure ()
  | steps + 1, brackets => do
    let left ← match ← skipStart with
      | some bracket => skipClosing false (bracket :: brackets)
      | none => skipClosing true brackets
    match left with
    | [] => pure ()
    | .list :: _ => skipWithin steps left
    | .object :: _ => skipName; skipWithin steps left

/-- Passes over a value, however deep. -/
def skip : Reader Unit := do skipWithin ((← get).rest.length + 1) []

/-! ## Whole texts -/

/-- Nothing but blanks may follow. -/
def finish : Reader Unit := do
  if (← significant?).isSome then malformedAhead .trailingText

/-- Reads a whole text. -/
def run {α : Type} (reader : Reader α) (text : Text) : Except ReadError α :=
  match EStateM.run (do let a ← reader; finish; pure a : Reader α) ⟨text, .start⟩ with
  | .ok a _ => .ok a
  | .error e _ => .error e

end Reader

end PatternLowering.Json

import PatternLowering.Json.Double
import PatternLowering.Json.Quoted

/-!
# JSON values

Values as they were read, and their text without blanks. An object keeps its names in the order in
which they first came.
-/

namespace PatternLowering.Json

/-- A number is an integer of at most 64 bits or a double with a sign of its own. -/
inductive Number where
  | integer (value : Int)
  | double (negative : Bool) (value : Double)
deriving DecidableEq, Repr

namespace Number

/-- Decimal digits with the point after the first `point` of them. -/
def positional (digits : Text) (point : Int) : Text :=
  if point ≤ 0 then '0' :: '.' :: List.replicate (-point).toNat '0' ++ digits
  else if digits.length ≤ point.toNat then
    digits ++ List.replicate (point.toNat - digits.length) '0' ++ ['.', '0']
  else digits.take point.toNat ++ '.' :: digits.drop point.toNat

/-- Decimal digits with the point after the first of them and a power of ten with its sign. -/
def scientific (digits : Text) (point : Int) : Text :=
  let mantissa := match digits with
    | first :: second :: rest => first :: '.' :: second :: rest
    | short => short
  let sign := if 1 ≤ point then '+' else '-'
  mantissa ++ 'e' :: sign :: (toString (point - 1).natAbs).toList

/-- The fewest digits that read back. From 1e-5 up to below 1e16 the point has its plain place;
beyond, a power of ten is written. -/
def doubleText (d : Double) : Text :=
  if d.significand = 0 then ['0', '.', '0']
  else
    let decimal := d.shortest
    let digits := (toString decimal.digits).toList
    let point := (digits.length : Int) + decimal.exponent
    if -5 < point ∧ point ≤ 16 then positional digits point else scientific digits point

def text : Number → Text
  | integer value => (toString value).toList
  | double negative value => (if negative then ['-'] else []) ++ doubleText value

end Number

end PatternLowering.Json

namespace PatternLowering

inductive Json where
  | null
  | bool (value : Bool)
  | number (value : Json.Number)
  | string (value : Text)
  | array (items : List Json)
  | object (fields : List (Text × Json))
deriving Repr

namespace Json

/-- Puts commas between texts. -/
def commas : List Text → Text
  | [] => []
  | [item] => item
  | item :: rest => item ++ ',' :: commas rest

mutual

def compact : Json → Text
  | null => "null".toList
  | bool true => "true".toList
  | bool false => "false".toList
  | number value => value.text
  | string value => quoted value
  | array items => '[' :: commas (compactItems items) ++ [']']
  | object fields => '{' :: commas (compactFields fields) ++ ['}']

def compactItems : List Json → List Text
  | [] => []
  | item :: rest => item.compact :: compactItems rest

def compactFields : List (Text × Json) → List Text
  | [] => []
  | (name, value) :: rest => (quoted name ++ ':' :: value.compact) :: compactFields rest

end

/-- Sets a field: in its old place if the name was there before, at the end otherwise. -/
def setField (name : Text) (value : Json) : List (Text × Json) → List (Text × Json)
  | [] => [(name, value)]
  | (other, old) :: rest =>
    if other = name then (other, value) :: rest else (other, old) :: setField name value rest

end Json

end PatternLowering

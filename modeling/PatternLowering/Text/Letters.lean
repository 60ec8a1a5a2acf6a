import PatternLowering.Text.Ranges

/-!
# Letters, digits and blanks

Each class is its Unicode property. Characters below U+0080 are answered without the table, by
the classes of the standard library, which know no others.
-/

namespace PatternLowering.Letters

def isAscii (c : Char) : Bool := c.toNat < 0x80

def isAlphabetic (c : Char) : Bool :=
  if isAscii c then c.isAlpha else Ranges.alphabetic.holds c

/-- A letter or a number of any kind. -/
def isAlphanumeric (c : Char) : Bool :=
  if isAscii c then c.isAlphanum else Ranges.alphabetic.holds c || Ranges.numeric.holds c

def isBlank (c : Char) : Bool := Ranges.blank.holds c

/-- The value of a hexadecimal digit, in either case. -/
def hexValue? (c : Char) : Option Nat :=
  if c.isDigit then some (c.toNat - '0'.toNat)
  else if 'a' ≤ c ∧ c ≤ 'f' then some (c.toNat - 'a'.toNat + 10)
  else if 'A' ≤ c ∧ c ≤ 'F' then some (c.toNat - 'A'.toNat + 10)
  else none

def isHexDigit (c : Char) : Bool := (hexValue? c).isSome

/-- Drops the blanks at both ends. -/
def trim (text : String) : String :=
  let inner := text.toList.dropWhile isBlank
  String.ofList (inner.reverse.dropWhile isBlank).reverse

/-- Lower case for the letters A to Z; every other character stays. -/
def lowerAscii (text : String) : String :=
  String.ofList (text.toList.map Char.toLower)

end PatternLowering.Letters

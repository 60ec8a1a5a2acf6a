/-!
# Doubles

Numbers that are not integers are kept to 53 binary places, rounded to nearest with ties to even.
All arithmetic is exact up to the one rounding at the end.
-/

namespace PatternLowering.Json

/-- The value `significand * 2 ^ exponent`, which is not negative. -/
structure Double where
  significand : Nat
  exponent : Int
deriving DecidableEq, Repr

/-- A quotient of natural numbers. -/
structure Fraction where
  num : Nat
  den : Nat
deriving DecidableEq, Repr

namespace Fraction

/-- The fraction divided by `2 ^ exponent`. -/
def unscale (f : Fraction) (exponent : Int) : Fraction :=
  if 0 ≤ exponent then ⟨f.num, f.den * Nat.pow 2 exponent.toNat⟩
  else ⟨f.num * Nat.pow 2 (-exponent).toNat, f.den⟩

def floor (f : Fraction) : Nat := f.num / f.den

/-- The nearest natural number, the even one of two that are as near. -/
def nearest (f : Fraction) : Nat :=
  let below := f.num / f.den
  let twice := 2 * (f.num % f.den)
  if f.den < twice ∨ twice = f.den ∧ below % 2 = 1 then below + 1 else below

def le (a b : Fraction) : Bool := a.num * b.den ≤ b.num * a.den

def lt (a b : Fraction) : Bool := a.num * b.den < b.num * a.den

end Fraction

namespace Double

/-- The least exponent of two; smaller values have fewer places. -/
def minExponent : Int := -1074

/-- The greatest exponent of two that goes with a full significand. -/
def maxExponent : Int := 971

def places : Nat := 53

def zero : Double := ⟨0, minExponent⟩

def fraction (d : Double) : Fraction := Fraction.unscale ⟨d.significand, 1⟩ (-d.exponent)

/-- The exponent at which a fraction has a significand of 53 places, if that is not too small. -/
def exponentOf (f : Fraction) : Int :=
  let size : Int := (f.num.log2 : Int) - f.den.log2 - places
  let guess := if size < minExponent then minExponent else size
  if Nat.pow 2 places ≤ (f.unscale guess).floor then guess + 1 else guess

/-- The double nearest to a fraction, or nothing if that is beyond the largest. -/
def round? (f : Fraction) : Option Double :=
  let exponent := exponentOf f
  let significand := (f.unscale exponent).nearest
  let result : Double :=
    if significand = Nat.pow 2 places then ⟨Nat.pow 2 (places - 1), exponent + 1⟩
    else ⟨significand, exponent⟩
  if maxExponent < result.exponent then none else some result

def mul? (a b : Double) : Option Double :=
  round? ⟨a.fraction.num * b.fraction.num, a.fraction.den * b.fraction.den⟩

def div? (a b : Double) : Option Double :=
  round? ⟨a.fraction.num * b.fraction.den, a.fraction.den * b.fraction.num⟩

def ofNat? (n : Nat) : Option Double := round? ⟨n, 1⟩

/-- The largest power of ten that is used in one step. -/
def maxPower : Nat := 308

/-- `significand * 10 ^ exponent`, rounded after each step: once for the significand, once for the
power of ten and once for their product or quotient. Very small values take the quotient in two
steps. Nothing if the value is too large. -/
def ofDecimal? (significand : Nat) (exponent : Int) : Option Double := do
  let value ← ofNat? significand
  if 0 ≤ exponent then
    if exponent ≤ maxPower then mul? value (← ofNat? (Nat.pow 10 exponent.toNat))
    else if significand = 0 then some zero else none
  else
    let power := (-exponent).toNat
    if power ≤ maxPower then div? value (← ofNat? (Nat.pow 10 power))
    else if power ≤ 2 * maxPower then
      let first ← div? value (← ofNat? (Nat.pow 10 maxPower))
      div? first (← ofNat? (Nat.pow 10 (power - maxPower)))
    else some zero

/-! The shortest decimal that reads back as a given double. -/

/-- The fractions that round to a double lie between these two, which count if the significand is
even. Below a power of two the neighbours are closer. -/
def bounds (d : Double) : Fraction × Fraction :=
  let narrow := d.significand = Nat.pow 2 (places - 1) ∧ minExponent < d.exponent
  let below : Nat := if narrow then 4 * d.significand - 1 else 4 * d.significand - 2
  let above := 4 * d.significand + 2
  (Fraction.unscale ⟨below, 1⟩ (2 - d.exponent), Fraction.unscale ⟨above, 1⟩ (2 - d.exponent))

def readsBack (d : Double) (f : Fraction) : Bool :=
  let (low, high) := d.bounds
  if d.significand % 2 = 0 then low.le f && f.le high else low.lt f && f.lt high

/-- `digits * 10 ^ exponent`. -/
structure Decimal where
  digits : Nat
  exponent : Int
deriving DecidableEq, Repr

namespace Decimal

def fraction (d : Decimal) : Fraction :=
  if 0 ≤ d.exponent then ⟨d.digits * Nat.pow 10 d.exponent.toNat, 1⟩
  else ⟨d.digits, Nat.pow 10 (-d.exponent).toNat⟩

end Decimal

/-- The multiple of `10 ^ exponent` that is nearest to a double among those next to it that read
back. -/
def onGrid? (d : Double) (exponent : Int) : Option Decimal :=
  let unit := Decimal.fraction ⟨1, exponent⟩
  let scaled : Fraction := ⟨d.fraction.num * unit.den, d.fraction.den * unit.num⟩
  let below : Decimal := ⟨scaled.floor, exponent⟩
  let above : Decimal := ⟨scaled.floor + 1, exponent⟩
  let nearest : Decimal := ⟨scaled.nearest, exponent⟩
  if d.readsBack nearest.fraction then some nearest
  else if d.readsBack below.fraction then some below
  else if d.readsBack above.fraction then some above
  else none

/-- Tries grids from `exponent` downwards, each finer by one place. -/
def shortestFrom (d : Double) (exponent : Int) : Nat → Decimal
  | 0 => ⟨0, 0⟩
  | tries + 1 =>
    match onGrid? d exponent with
    | some decimal => decimal
    | none => shortestFrom d (exponent - 1) tries

/-- The decimal with the fewest digits that reads back, the nearest if there are several. The first
grid tried is coarser than the double itself, and seventeen digits always suffice. -/
def shortest (d : Double) : Decimal :=
  let size : Int := (d.fraction.num.log2 : Int) - d.fraction.den.log2
  shortestFrom d (size * 30103 / 100000 + 2) 24

end Double

end PatternLowering.Json

/-!
Floating-point numbers with a 53-bit significand, held exactly. Rounding is to
the nearest value, a tie to the even significand, and all of it is integer
arithmetic.
-/

namespace TapeMachine

/-- A finite value is `significand * 2 ^ exponent` with its sign. Values made
by the functions here are normalised: the significand has 53 bits, or the
exponent is -1074. -/
inductive Binary64
  | nan
  | infinite (negative : Bool)
  | finite (negative : Bool) (significand : Nat) (exponent : Int)
  deriving DecidableEq, Inhabited

namespace Binary64

def minExponent : Int := -1074

def maxExponent : Int := 971

/-- The quotient rounded to the nearest natural number, a tie to the even
one. -/
def roundQuotient (numerator denominator : Nat) : Nat :=
  let quotient := numerator / denominator
  let twice := 2 * (numerator % denominator)
  if twice < denominator then quotient
  else if denominator < twice then quotient + 1
  else quotient + quotient % 2

/-- The positive fraction `numerator / denominator` times `2 ^ shift`, again
as a fraction. -/
def scale (numerator denominator : Nat) (shift : Int) : Nat × Nat :=
  if 0 ≤ shift then (numerator <<< shift.toNat, denominator)
  else (numerator, denominator <<< (-shift).toNat)

/-- The exponent of the highest binary digit of a positive fraction. -/
def binaryOrder (numerator denominator : Nat) : Int :=
  let estimate : Int := numerator.log2 - denominator.log2
  let (scaledNumerator, scaledDenominator) := scale numerator denominator (-estimate)
  if scaledDenominator ≤ scaledNumerator then estimate else estimate - 1

/-- The value nearest to a fraction with a positive denominator. -/
def ofFraction (negative : Bool) (numerator denominator : Nat) : Binary64 :=
  if numerator = 0 then finite negative 0 minExponent
  else
    let exponent := max (binaryOrder numerator denominator - 52) minExponent
    let (scaledNumerator, scaledDenominator) := scale numerator denominator (-exponent)
    let rounded := roundQuotient scaledNumerator scaledDenominator
    let (significand, exponent) :=
      if rounded = 1 <<< 53 then (1 <<< 52, exponent + 1) else (rounded, exponent)
    if maxExponent < exponent then infinite negative
    else finite negative significand exponent

def decimalLength (n : Nat) : Nat :=
  (Nat.toDigits 10 n).length

/-- The value nearest to `coefficient * 10 ^ exponent`. Powers far beyond
either end of the range are settled by size alone. -/
def ofDecimal (negative : Bool) (coefficient : Nat) (exponent : Int) : Binary64 :=
  if coefficient = 0 then finite negative 0 minExponent
  else
    let order := exponent + decimalLength coefficient
    if 400 < order then infinite negative
    else if order < -400 then finite negative 0 minExponent
    else if 0 ≤ exponent then
      ofFraction negative (coefficient * Nat.pow 10 exponent.toNat) 1
    else ofFraction negative coefficient (Nat.pow 10 (-exponent).toNat)

def isFinite : Binary64 → Bool
  | finite .. => true
  | _ => false

def isBelowZero : Binary64 → Bool
  | nan => false
  | infinite negative => negative
  | finite negative significand _ => negative && significand != 0

/-- The magnitude of a finite value rounded down, after `shift` further
doublings. -/
def floorMagnitude (significand : Nat) (exponent shift : Int) : Nat :=
  let (numerator, denominator) := scale significand 1 (exponent + shift)
  numerator / denominator

/-- The magnitude of a finite value rounded up. -/
def ceilMagnitude (significand : Nat) (exponent : Int) : Nat :=
  let (numerator, denominator) := scale significand 1 exponent
  (numerator + (denominator - 1)) / denominator

def signed (negative : Bool) (n : Nat) : Int :=
  if negative then -(n : Int) else n

/-- The integer part of a finite value. -/
def truncate? : Binary64 → Option Int
  | finite negative significand exponent =>
    some (signed negative (floorMagnitude significand exponent 0))
  | _ => none

/-- How many natural numbers lie below a value; none if all do. -/
def naturalsBelow? : Binary64 → Option Nat
  | nan => some 0
  | infinite negative => if negative then some 0 else none
  | finite negative significand exponent =>
    some (if negative then 0 else ceilMagnitude significand exponent)

/-- Whether a value is no number, or at least the integer `n`. -/
def isNotBelow (n : Int) : Binary64 → Bool
  | nan => true
  | infinite negative => !negative
  | finite negative significand exponent =>
    if negative then (ceilMagnitude significand exponent : Int) ≤ -n
    else n ≤ floorMagnitude significand exponent 0

/-- Half the value, rounded down to a whole number. -/
def floorHalf : Binary64 → Binary64
  | finite negative significand exponent =>
    let whole := floorMagnitude significand exponent (-1)
    let exact := scale significand 1 (exponent - 1)
    let magnitude :=
      if negative && exact.1 % exact.2 != 0 then whole + 1 else whole
    ofFraction negative magnitude 1
  | other => other

/-- Whether an integer is so large that the nearest value would lie beyond the
largest finite one. -/
def overflows (n : Int) : Bool :=
  (1 <<< 1024) - (1 <<< 970) ≤ n.natAbs

def ofInt (n : Int) : Binary64 :=
  ofFraction (n < 0) n.natAbs 1

/-- The signed value of a significand counted in units of `2 ^ unit`, which is
no larger than the unit of the significand itself. -/
def inUnits (negative : Bool) (significand : Nat) (exponent unit : Int) : Int :=
  signed negative (significand <<< (exponent - unit).toNat)

/-- The value nearest to an exact sum. Only two negative zeros make a negative
zero. -/
def add : Binary64 → Binary64 → Binary64
  | nan, _ => nan
  | _, nan => nan
  | infinite a, infinite b => if a = b then infinite a else nan
  | infinite a, _ => infinite a
  | _, infinite b => infinite b
  | finite a m e, finite b n f =>
    let unit := min e f
    let sum := inUnits a m e unit + inUnits b n f unit
    let (numerator, denominator) := scale sum.natAbs 1 unit
    ofFraction (sum < 0 || a && b) numerator denominator

end Binary64

end TapeMachine

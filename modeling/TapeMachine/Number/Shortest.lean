import TapeMachine.Number.Binary64

/-!
The decimal text of a floating-point number: the fewest digits that read back
as the same value, and of those the nearest. The point is written out when the
first digit stands for a power of ten from -4 to 15; otherwise one digit goes
before the point and the power follows.
-/

namespace TapeMachine.Binary64

/-- The power of ten of the first digit of a positive fraction. -/
def decimalOrder (numerator denominator : Nat) : Int :=
  if denominator ≤ numerator then
    (decimalLength (numerator / denominator) : Int) - 1
  else
    let inverse := (denominator + numerator - 1) / numerator
    .negOfNat (decimalLength (inverse - 1))

/-- The better of the two multiples of `10 ^ place` around the value that
reads back as it, as a count of that unit. -/
def onGrid? (x : Binary64) (numerator denominator : Nat) (place : Int) : Option Nat :=
  let (numerator, denominator) :=
    if 0 ≤ place then (numerator, denominator * Nat.pow 10 place.toNat)
    else (numerator * Nat.pow 10 (-place).toNat, denominator)
  let below := numerator / denominator
  let readsBack (count : Nat) := decide (ofDecimal false count place = x)
  let nearest := roundQuotient numerator denominator
  if readsBack nearest then some nearest
  else
    let other := if nearest = below then below + 1 else below
    if readsBack other then some other else none

/-- Tries grids of `digits`, `digits + 1`, … places. -/
def searchDigits (x : Binary64) (numerator denominator : Nat) (order : Int) :
    (fuel digits : Nat) → Nat × Int
  | 0, digits => (0, order - digits)
  | fuel + 1, digits =>
    let place := order - digits + 1
    match onGrid? x numerator denominator place with
    | some count => (count, place)
    | none => searchDigits x numerator denominator order fuel (digits + 1)

/-- The shortest decimal `count * 10 ^ place` of a positive finite value. No
value needs more than 17 digits. -/
def shortest (significand : Nat) (exponent : Int) : Nat × Int :=
  let (numerator, denominator) := scale significand 1 exponent
  searchDigits (finite false significand exponent) numerator denominator
    (decimalOrder numerator denominator) 17 1

def dropTrailingZeros (digits : List Char) : List Char :=
  (digits.reverse.dropWhile (· = '0')).reverse

/-- A power with its sign and at least two digits. -/
def powerText (power : Int) : List Char :=
  let digits := Nat.toDigits 10 power.natAbs
  (if power < 0 then '-' else '+') ::
    (if digits.length < 2 then '0' :: digits else digits)

/-- Writes digits of which the first stands for `10 ^ order`. -/
def layOut (digits : List Char) (order : Int) : List Char :=
  if -4 ≤ order ∧ order < 16 then
    if order < 0 then
      '0' :: '.' :: List.replicate ((-order).toNat - 1) '0' ++ digits
    else
      let whole := order.toNat + 1
      let before := digits.take whole ++ List.replicate (whole - digits.length) '0'
      let after := digits.drop whole
      before ++ '.' :: (if after.isEmpty then ['0'] else after)
  else
    match digits with
    | [] => []
    | [only] => only :: 'e' :: powerText order
    | first :: rest => first :: '.' :: rest ++ 'e' :: powerText order

def magnitudeText (significand : Nat) (exponent : Int) : List Char :=
  if significand = 0 then ['0', '.', '0']
  else
    let (count, place) := shortest significand exponent
    let digits := Nat.toDigits 10 count
    layOut (dropTrailingZeros digits) (place + digits.length - 1)

def signedText (negative : Bool) (magnitude : List Char) : String :=
  String.ofList (if negative then '-' :: magnitude else magnitude)

/-- How a value is shown, the three special ones in lower case. -/
def text : Binary64 → String
  | nan => "nan"
  | infinite negative => signedText negative "inf".toList
  | finite negative significand exponent =>
    signedText negative (magnitudeText significand exponent)

end TapeMachine.Binary64

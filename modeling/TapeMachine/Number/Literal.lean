import TapeMachine.Number.Binary64
import TapeMachine.Text.Digit
import TapeMachine.Text.Words

/-!
Numbers read from text. Both kinds of literal may stand between blanks, carry
a sign, use the digits of any script and part digits by single underscores.
-/

namespace TapeMachine.Literal

inductive IntegerFault
  | malformed (literal : Text)
  | tooManyDigits (count : Nat)

/-- The longest integer literal that is read. -/
def digitLimit : Nat := 4300

/-- Reads an optional sign: whether it is a minus, and the rest. -/
def takeSign : Text → Bool × Text
  | .scalar '-' :: rest => (true, rest)
  | .scalar '+' :: rest => (false, rest)
  | t => (false, t)

def isUnderscore (c : CodePoint) : Bool :=
  c = .scalar '_'

/-- Whether every underscore of a run of digits and underscores stands between
two digits, and there is a digit. -/
def wellParted : Text → Bool
  | [] => false
  | [c] => !isUnderscore c
  | c :: next :: rest =>
    !(isUnderscore c) &&
      if isUnderscore next then wellParted rest else wellParted (next :: rest)

def digitsOf (run : Text) : List Nat :=
  run.filterMap Text.digit?

def natOfDigits (digits : List Nat) : Nat :=
  digits.foldl (fun n d => 10 * n + d) 0

/-- Reads an integer. The digit count is checked before what follows the
digits is looked at. -/
def integer (t : Text) : Except IntegerFault Int :=
  let (negative, body) := takeSign (t.dropWhile Text.isNumberBlank)
  let inRun (c : CodePoint) := Text.isDigit c || isUnderscore c
  let run := body.takeWhile inRun
  let rest := body.dropWhile inRun
  let digits := digitsOf run
  if !wellParted run then .error (.malformed t)
  else if digitLimit < digits.length then .error (.tooManyDigits digits.length)
  else if !rest.all Text.isNumberBlank then .error (.malformed t)
  else .ok (Binary64.signed negative (natOfDigits digits))

/-- Digits of any script as the plain ones; all else as it is. -/
def plainDigit (c : CodePoint) : CodePoint :=
  match Text.digit? c with
  | some d => .scalar (Nat.digitChar d)
  | none => c

/-- Drops underscores, each of which must stand between two digits. -/
def dropUnderscores? (t : Text) : Option Text :=
  let parted (before after : Option CodePoint) :=
    (before.map Text.isAsciiDigit).getD false && (after.map Text.isAsciiDigit).getD false
  let rec go (before : Option CodePoint) : Text → Option Text
    | [] => some []
    | c :: rest =>
      if isUnderscore c then
        if parted before rest.head? then go (some c) rest else none
      else (go (some c) rest).map (c :: ·)
  go none t

/-- Digits with an optional point and power: the digits as one number and the
power of ten of the last of them. -/
def decimal? (t : Text) : Option (Nat × Int) :=
  let whole := t.takeWhile Text.isAsciiDigit
  let (part, rest) :=
    match t.dropWhile Text.isAsciiDigit with
    | .scalar '.' :: rest => (rest.takeWhile Text.isAsciiDigit, rest.dropWhile Text.isAsciiDigit)
    | rest => ([], rest)
  let coefficient := natOfDigits (digitsOf (whole ++ part))
  if whole.isEmpty && part.isEmpty then none
  else
    match rest with
    | [] => some (coefficient, -part.length)
    | mark :: rest =>
      if mark = .scalar 'e' ∨ mark = .scalar 'E' then
        let (negative, power) := takeSign rest
        if power.isEmpty || !power.all Text.isAsciiDigit then none
        else
          some (coefficient,
            Binary64.signed negative (natOfDigits (digitsOf power)) - part.length)
      else none

/-- Reads a real number: a decimal, or an infinity or not-a-number by name. -/
def real? (t : Text) : Option Binary64 :=
  let (negative, body) := takeSign ((Text.trimBy Text.isNumberBlank t).map plainDigit)
  let name := Text.toLower body
  if name = Text.ofString "inf" ∨ name = Text.ofString "infinity" then
    some (.infinite negative)
  else if name = Text.ofString "nan" then some .nan
  else
    ((dropUnderscores? body).bind decimal?).map fun (coefficient, power) =>
      Binary64.ofDecimal negative coefficient power

end TapeMachine.Literal

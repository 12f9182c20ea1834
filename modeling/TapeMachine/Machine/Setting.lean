import TapeMachine.Json.Display
import TapeMachine.Memory
import TapeMachine.Number.Literal
import TapeMachine.Text.Template

/-!
The settings of a machine: the size of its tape, its delay, its steps per tick
and the slider that gives the last two; and the numbers that bound what is asked
of it. Values arrive as data of any kind; each reading says what it takes and why
it refuses the rest.
-/

namespace TapeMachine

/-- A number as it was given. Truth values count as one and zero. -/
inductive Number
  | int (n : Int)
  | real (x : Binary64)
  | truth (b : Bool)
  deriving DecidableEq

namespace Number

def text : Number → String
  | int n => toString n
  | real x => x.text
  | truth b => Json.truthText b

def toJson : Number → Json
  | int n => .int n
  | real x => .real x
  | truth b => .bool b

def isBelowZero : Number → Bool
  | int n => n < 0
  | real x => x.isBelowZero
  | truth _ => false

/-- The integer that the number is, if it is of an integral kind. -/
def integer? : Number → Option Int
  | int n => some n
  | real _ => none
  | truth b => some (if b then 1 else 0)

/-- Half the number, rounded down. -/
def floorHalf : Number → Number
  | int n => int (n / 2)
  | real x => real x.floorHalf
  | truth _ => int 0

/-- The whole part, toward zero; the special values have none. -/
def truncate? : Number → Option Int
  | int n => some n
  | real x => x.truncate?
  | truth b => some (if b then 1 else 0)

end Number

/-- Whether a number fits into the signed words that count bytes. -/
def isByteCount (n : Int) : Bool :=
  -byteCountLimit ≤ n && n < byteCountLimit

def byteCountMessage : String :=
  "cannot fit 'int' into an index-sized integer"

/-- Why a value is refused. Values of other kinds than the expected ones are
told by the name of their kind. -/
inductive Refusal
  | notReal (kind : String)
  | delayRange (value : Number)
  | tooLarge
  | notIntegral (kind : String)
  | literal (fault : Literal.IntegerFault)
  | nanToInteger
  | infinityToInteger
  | stepsRange (value : String)
  | tapeSize (size : Number)
  | notCount
  | noMemory
  | notCells (kind : String)
  | notInteger (kind : String)
  | notPosition (kind : String)
  | notBound
  | unordered (left right : String)
  | noOperation (operator left right : String)
  | notJoinable (kind other : String)
  | template (fault : Template.Fault)
  | notIterable (kind : String)
  | noLength (kind : String)
  | notPiece (kind : String)
  | notCharacter (kind : String)
  | notOneCharacter (length : Nat)
  | notNumeric (kind : String)
  | realLiteral (literal : Text)

namespace Refusal

/-- How many characters of a quoted literal are shown. -/
def quoteLimit : Nat := 200

def literalMessage : Literal.IntegerFault → String
  | .malformed t =>
    s!"invalid literal for int() with base 10: {String.ofList ((Text.quoted t).take quoteLimit)}"
  | .tooManyDigits count =>
    s!"Exceeds the limit ({Literal.digitLimit} digits) for integer string conversion: " ++
      s!"value has {count} digits; use sys.set_int_max_str_digits() to increase the limit"

def message : Refusal → String
  | notReal kind => s!"must be real number, not {kind}"
  | delayRange value => s!"delay must be a finite number >= 0, got {value.text}"
  | tooLarge => "int too large to convert to float"
  | notIntegral kind =>
    "int() argument must be a string, a bytes-like object or a real number, " ++
      s!"not '{kind}'"
  | literal fault => literalMessage fault
  | nanToInteger => "cannot convert float NaN to integer"
  | infinityToInteger => "cannot convert float infinity to integer"
  | stepsRange value => s!"steps_per_tick must be >= 1, got {value}"
  | tapeSize size => s!"tape_size must be positive, got {size.text}"
  | notCount => byteCountMessage
  | noMemory => ""
  | notCells kind => s!"cannot convert '{kind}' object to bytearray"
  | notInteger kind => s!"'{kind}' object cannot be interpreted as an integer"
  | notPosition kind => s!"bytearray indices must be integers or slices, not {kind}"
  | notBound => "slice indices must be integers or None or have an __index__ method"
  | unordered left right => s!"'<' not supported between instances of '{left}' and '{right}'"
  | noOperation operator left right =>
    s!"unsupported operand type(s) for {operator}: '{left}' and '{right}'"
  | notJoinable kind other => s!"can only concatenate {kind} (not \"{other}\") to {kind}"
  | template fault => fault.message
  | notIterable kind => s!"'{kind}' object is not iterable"
  | noLength kind => s!"object of type '{kind}' has no len()"
  | notPiece kind => s!"'in <string>' requires string as left operand, not {kind}"
  | notCharacter kind => s!"ord() expected string of length 1, but {kind} found"
  | notOneCharacter length =>
    s!"ord() expected a character, but string of length {length} found"
  | notNumeric kind =>
    s!"float() argument must be a string or a real number, not '{kind}'"
  | realLiteral t => s!"could not convert string to float: {Text.quote t}"

end Refusal

namespace Number

def ofJson? : Json → Option Number
  | .int n => some (int n)
  | .real x => some (real x)
  | .bool b => some (truth b)
  | _ => none

/-- The whole part of a floating-point number, toward zero. -/
def wholeOfReal (x : Binary64) : Except Refusal Int :=
  match x.truncate? with
  | some n => .ok n
  | none => .error (if x = .nan then .nanToInteger else .infinityToInteger)

/-- The integer that a value stands for: a number's whole part, or the integer
that a text spells. -/
def whole : Json → Except Refusal Int
  | .int n => .ok n
  | .bool b => .ok (if b then 1 else 0)
  | .real x => wholeOfReal x
  | .text t =>
    match Literal.integer t with
    | .ok n => .ok n
    | .error fault => .error (.literal fault)
  | value => .error (.notIntegral value.kind)

/-- The floating-point number that a value stands for. -/
def toReal : Json → Except Refusal Binary64
  | .int n => if Binary64.overflows n then .error .tooLarge else .ok (.ofInt n)
  | .bool b => .ok (.ofInt (if b then 1 else 0))
  | .real x => .ok x
  | .text t =>
    match Literal.real? t with
    | some x => .ok x
    | none => .error (.realLiteral t)
  | value => .error (.notNumeric value.kind)

end Number

/-- The delay between ticks that a value stands for: any finite number from
zero up, kept as it was given. -/
def delayOf (value : Json) : Except Refusal Number :=
  match Number.ofJson? value with
  | none => .error (.notReal value.kind)
  | some number =>
    match number with
    | .int n =>
      if Binary64.overflows n then .error .tooLarge
      else if n < 0 then .error (.delayRange number)
      else .ok number
    | .real x =>
      if x.isFinite && !x.isBelowZero then .ok number else .error (.delayRange number)
    | .truth _ => .ok number

/-- The size of a tape that a value stands for: an integer of at least one, for
which there is memory. -/
def sizeOf (memory : Memory) (value : Json) : Except Refusal Nat :=
  match Number.ofJson? value with
  | none => .error (.unordered value.kind "int")
  | some (.int n) =>
    if n < 1 then .error (.tapeSize (.int n))
    else if !isByteCount n then .error .notCount
    else if !memory.holds n.toNat then .error .noMemory
    else .ok n.toNat
  | some (.real x) =>
    if x.isNotBelow 1 then .error (.notCells value.kind) else .error (.tapeSize (.real x))
  | some (.truth b) =>
    if !b then .error (.tapeSize (.truth b))
    else if !memory.holds 1 then .error .noMemory
    else .ok 1

/-- How many steps a limit leaves: as many as there are natural numbers below
it. An absent or infinite one leaves any number. -/
def limitOf (value : Json) : Except Refusal (Option Nat) :=
  match value with
  | .null => .ok none
  | _ =>
    match Number.ofJson? value with
    | none => .error (.unordered "int" value.kind)
    | some (.int n) => .ok (some n.toNat)
    | some (.real x) => .ok x.naturalsBelow?
    | some (.truth b) => .ok (some (if b then 1 else 0))

/-- The integer that a value is. -/
def integerOf (value : Json) : Except Refusal Int :=
  match (Number.ofJson? value).bind Number.integer? with
  | some n => .ok n
  | none => .error (.notInteger value.kind)

/-- The size of a batch, of which null leaves the choice to the machine. -/
def countOf (value : Json) : Except Refusal (Option Int) :=
  match value with
  | .null => .ok none
  | _ => (integerOf value).map some

/-- How far a number reaches from `position` among `size` places in a row: an
integer its own distance, another number only where all places are within its
reach. The place after the last one reached is found by rounded sums. -/
def Number.reach? (n : Number) (position size : Nat) : Option Int :=
  match n with
  | .real x =>
    let stop := (x.add (.ofInt position)).add (.ofInt 1)
    if x.isNotBelow position && stop.isNotBelow size then some (max position size)
    else none
  | _ => n.integer?

/-- The distance that a value stands for at `position` among `size` places. The
fault is that of a number which does not reach all of them. -/
def distanceOf (value : Json) (position size : Nat) (fault : Refusal) : Except Refusal Int :=
  match Number.ofJson? value with
  | none => .error (.noOperation "-" "int" value.kind)
  | some n =>
    match n.reach? position size with
    | some distance => .ok distance
    | none => .error fault

/-- Why two values have no sum to stop at. Two texts or two lists have one, but
it is no number. -/
def sumRefusal (left right : Json) : Refusal :=
  match left, right with
  | .text _, .text _ | .list _, .list _ => .unordered left.kind "int"
  | .text _, _ | .list _, _ => .notJoinable left.kind right.kind
  | _, _ => .noOperation "+" left.kind right.kind

/-- The number of steps per tick that a value stands for: a whole part of at
least one. -/
def stepsOf (value : Json) : Except Refusal Nat :=
  match Number.whole value with
  | .error refusal => .error refusal
  | .ok n => if n < 1 then .error (.stepsRange value.display.display) else .ok n.toNat

/-- The delay and the steps per tick of a slider position from 0 to 100. Up to
80 a notch shortens the delay by ten; from there the delay is zero and the
steps grow by nine fifths per notch. -/
def sliderSpeed (position : Int) : Nat × Nat :=
  let notch := (max 0 (min 100 position)).toNat
  if notch ≤ 80 then ((80 - notch) * 10, 1)
  else (0, Nat.pow 9 (notch - 80) / Nat.pow 5 (notch - 80))

def sliderOf (value : Json) : Except Refusal (Nat × Nat) :=
  (Number.whole value).map sliderSpeed

end TapeMachine

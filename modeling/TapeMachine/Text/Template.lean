import TapeMachine.Memory
import TapeMachine.Text

/-!
Templates: texts with places for values to be written in. A place is a percent
sign, then flags, a width, a precision, a letter for the size and a letter for
the conversion, of which only the last must be there; a star takes the width or
the precision from a value of its own. A percent sign right after the first is
a percent sign in the text. Here a single natural number is to be written in,
and the question is whether template and number fit.
-/

namespace TapeMachine.Template

/-- Why a number cannot be written into a template. A conversion that does not
exist is told with its place in the template. -/
inductive Fault
  | namedPlace
  | missingValue
  | unusedValue
  | incomplete
  | widthLimit
  | precisionLimit
  | digitLimit
  | notCharacter
  | noMemory
  | conversion (c : CodePoint) (position : Nat)

/-- A character as it is named, a question mark for those that may not show. -/
def shown (c : CodePoint) : Char :=
  match c with
  | .scalar c => if 0x1f ≤ c.toNat && c.toNat < 0x7f then c else '?'
  | .surrogate _ => '?'

def Fault.message : Fault → String
  | namedPlace => "format requires a mapping"
  | missingValue => "not enough arguments for format string"
  | unusedValue => "not all arguments converted during string formatting"
  | incomplete => "incomplete format"
  | widthLimit => "width too big"
  | precisionLimit => "precision too big"
  | digitLimit => "precision too large"
  | notCharacter => "%c arg not in range(0x110000)"
  | noMemory => ""
  | conversion c position =>
    s!"unsupported format character '{shown c}' " ++
      s!"(0x{String.ofList (Nat.toDigits 16 c.value)}) at index {position}"

/-- How far a place has been read. The stages that end in `End` come after a
star. -/
inductive Stage
  | outside
  | opened
  | flags
  | width
  | widthEnd
  | point
  | precision
  | precisionEnd
  | size
  deriving DecidableEq

/-- A template read up to some point, with the value as long as it has found no
place. -/
structure Scan where
  stage : Stage
  width : Nat
  precision : Nat
  value : Option Nat

def Scan.outside (value : Option Nat) : Scan :=
  { stage := .outside, width := 0, precision := 0, value }

def Scan.moveTo (s : Scan) (stage : Stage) : Scan :=
  { s with stage }

def maxWidth : Nat := 0x7fffffffffffffff

def maxPrecision : Nat := 0x7fffffff

def isFlag (c : Char) : Bool :=
  "-+ #0".toList.contains c

def isSize (c : Char) : Bool :=
  "hlL".toList.contains c

def isIntegerConversion (c : Char) : Bool :=
  "diuoxX".toList.contains c

def isConversion (c : Char) : Bool :=
  isIntegerConversion c || "eEfFgGcrsa".toList.contains c

def digit (c : Char) : Nat :=
  c.toNat - '0'.toNat

/-- Takes the value for a place. -/
def Scan.take (s : Scan) : Except Fault (Nat × Scan) :=
  match s.value with
  | some n => .ok (n, { s with value := none })
  | none => .error .missingValue

/-- Takes the value for a star. -/
def Scan.star (s : Scan) (next : Stage) : Except Fault Scan :=
  s.take.map fun (_, s) => s.moveTo next

/-- Ends a place with a conversion. The value is taken before the conversion is
looked at, and the text as wide as asked for must fit into memory. -/
def Scan.convert (memory : Memory) (s : Scan) (position : Nat) (c : CodePoint) :
    Except Fault Scan :=
  match s.take with
  | .error fault => .error fault
  | .ok (n, s) =>
    match c with
    | .surrogate _ => .error (.conversion c position)
    | .scalar letter =>
      if !isConversion letter then .error (.conversion c position)
      else if isIntegerConversion letter && maxPrecision - 3 < s.precision then
        .error .digitLimit
      else if letter = 'c' && 0x110000 ≤ n then .error .notCharacter
      else if !memory.holds s.width then .error .noMemory
      else .ok (.outside s.value)

def Scan.widen (s : Scan) (c : Char) : Except Fault Scan :=
  let width := 10 * s.width + digit c
  if maxWidth < width then .error .widthLimit else .ok { s with stage := .width, width }

def Scan.refine (s : Scan) (c : Char) : Except Fault Scan :=
  let precision := 10 * s.precision + digit c
  if maxPrecision < precision then .error .precisionLimit
  else .ok { s with stage := .precision, precision }

/-- Reads one more character. -/
def Scan.step (memory : Memory) (s : Scan) (position : Nat) (c : CodePoint) :
    Except Fault Scan :=
  match c with
  | .surrogate _ => if s.stage = .outside then .ok s else s.convert memory position c
  | .scalar letter =>
    let convert := s.convert memory position c
    let sizeOrConvert := if isSize letter then .ok (s.moveTo .size) else convert
    let afterWidth := if letter = '.' then .ok (s.moveTo .point) else sizeOrConvert
    let inFlags :=
      if isFlag letter then .ok (s.moveTo .flags)
      else if letter = '*' then s.star .widthEnd
      else if letter.isDigit then s.widen letter
      else afterWidth
    match s.stage with
    | .outside => .ok (if letter = '%' then s.moveTo .opened else s)
    | .opened =>
      if letter = '%' then .ok (.outside s.value)
      else if letter = '(' then .error .namedPlace
      else inFlags
    | .flags => inFlags
    | .width => if letter.isDigit then s.widen letter else afterWidth
    | .widthEnd => afterWidth
    | .point =>
      if letter = '*' then s.star .precisionEnd
      else if letter.isDigit then s.refine letter
      else sizeOrConvert
    | .precision => if letter.isDigit then s.refine letter else sizeOrConvert
    | .precisionEnd => sizeOrConvert
    | .size => convert

/-- Reads a template on from `position`. No place may be left open, and the
value must have found its place. -/
def scan (memory : Memory) : (position : Nat) → Scan → Text → Except Fault Unit
  | _, s, [] =>
    if s.stage ≠ .outside then .error .incomplete
    else if s.value.isSome then .error .unusedValue
    else .ok ()
  | position, s, c :: rest =>
    match s.step memory position c with
    | .error fault => .error fault
    | .ok s => scan memory (position + 1) s rest

/-- Whether a number can be written into a template. -/
def check (memory : Memory) (template : Text) (n : Nat) : Except Fault Unit :=
  scan memory 0 (.outside (some n)) template

end TapeMachine.Template

import TapeMachine.Json
import TapeMachine.Number.Literal

/-!
Reading JSON text. The grammar is the standard one with three more numbers,
`NaN`, `Infinity` and `-Infinity`; raw control characters are refused in
strings; two escapes that spell a surrogate pair give one character and a lone
one stays as it is. Integers may be limited in length, and how deep values lie
in one another always is.
-/

namespace TapeMachine.Json

/-- The code point that four hexadecimal digits name. -/
def unit? (digits : List CodePoint) : Option CodePoint :=
  (digits.mapM Text.hexDigit?).bind fun values =>
    CodePoint.ofValue? (values.foldl (fun n d => 16 * n + d) 0)

/-- The character after a backslash that stands for `c`. -/
def escape? (c : Char) : Option Char :=
  match c with
  | '"' => some '"'
  | '\\' => some '\\'
  | '/' => some '/'
  | 'b' => some '\x08'
  | 'f' => some '\x0c'
  | 'n' => some '\n'
  | 'r' => some '\r'
  | 't' => some '\t'
  | _ => none

def isControl (c : CodePoint) : Bool :=
  c.value < 0x20

/-- Reads the rest of a string after its opening quote: what it holds and what
follows it. `done` is what was read, in reverse, and `high` tells that its
last character was an escaped high surrogate. -/
def readString (high : Bool) (done : Text) : Text → Option (Text × Text)
  | .scalar '"' :: rest => some (done.reverse, rest)
  | .scalar '\\' :: .scalar 'u' :: a :: b :: c :: d :: rest =>
    match unit? [a, b, c, d] with
    | none => none
    | some unit =>
      match high && unit.isLowSurrogate, done with
      | true, before :: done => readString false (before.joinSurrogates unit :: done) rest
      | _, _ => readString unit.isHighSurrogate (unit :: done) rest
  | .scalar '\\' :: .scalar c :: rest =>
    match escape? c with
    | none => none
    | some c => readString false (.scalar c :: done) rest
  | c :: rest =>
    if isControl c || c = .scalar '\\' then none else readString false (c :: done) rest
  | [] => none

def isSpace (c : CodePoint) : Bool :=
  c = .scalar ' ' || c = .scalar '\t' || c = .scalar '\n' || c = .scalar '\r'

def skipSpace (t : Text) : Text :=
  t.dropWhile isSpace

open Literal in
/-- The digits after a mark, where there are any: a mark without digits is
left unread. -/
def takeFraction (t : Text) : Text × Text :=
  match t with
  | .scalar '.' :: rest =>
    let digits := rest.takeWhile Text.isAsciiDigit
    if digits.isEmpty then ([], t) else (digits, rest.dropWhile Text.isAsciiDigit)
  | _ => ([], t)

open Literal in
def takePower (t : Text) : Option Int × Text :=
  match t with
  | mark :: rest =>
    if mark = .scalar 'e' ∨ mark = .scalar 'E' then
      let (negative, body) := takeSign rest
      let digits := body.takeWhile Text.isAsciiDigit
      if digits.isEmpty then (none, t)
      else
        (some (Binary64.signed negative (natOfDigits (digitsOf digits))),
          body.dropWhile Text.isAsciiDigit)
    else (none, t)
  | [] => (none, t)

open Literal in
/-- Reads a number without its sign. Without a point and a power it is an
integer. -/
def readNumber (limit : Option Nat) (negative : Bool) (t : Text) : Option (Json × Text) :=
  let run := t.takeWhile Text.isAsciiDigit
  let whole := if Text.startsWith run '0' then run.take 1 else run
  if whole.isEmpty then none
  else
    let (fraction, rest) := takeFraction (t.drop whole.length)
    let (power, rest) := takePower rest
    if fraction.isEmpty && power.isNone then
      if (limit.map fun most => decide (most < whole.length)).getD false then none
      else some (int (Binary64.signed negative (natOfDigits (digitsOf whole))), rest)
    else
      some
        (real (Binary64.ofDecimal negative (natOfDigits (digitsOf (whole ++ fraction)))
          (power.getD 0 - fraction.length)), rest)

/-- The values written as a word. -/
def words : List (Text × Json) :=
  [("null", null), ("true", bool true), ("false", bool false), ("NaN", real .nan),
    ("Infinity", real (.infinite false)), ("-Infinity", real (.infinite true))].map
    fun (word, value) => (Text.ofString word, value)

def readWord (t : Text) : Option (Json × Text) :=
  (words.find? fun (word, _) => word.isPrefixOf t).map fun (word, value) =>
    (value, t.drop word.length)

def readScalar (limit : Option Nat) (t : Text) : Option (Json × Text) :=
  match readWord t with
  | some found => some found
  | none =>
    match t with
    | .scalar '-' :: rest => readNumber limit true rest
    | _ => readNumber limit false t

/-- Why a text is not read: it is ill-formed, or its lists and objects lie
deeper in one another than the limit, with the kind of the one too deep. -/
inductive ReadFault
  | malformed
  | deepList
  | deepObject

mutual

/-- Reads a value in which lists and objects may lie up to `depth` deep. -/
def readValue (limit : Option Nat) :
    (fuel depth : Nat) → Text → Except ReadFault (Json × Text)
  | 0, _, _ => .error .malformed
  | _ + 1, _, .scalar '"' :: rest =>
    match readString false [] rest with
    | none => .error .malformed
    | some (t, rest) => .ok (text t, rest)
  | _ + 1, 0, .scalar '[' :: _ => .error .deepList
  | fuel + 1, depth + 1, .scalar '[' :: rest =>
    match skipSpace rest with
    | .scalar ']' :: rest => .ok (list [], rest)
    | rest => readItems limit fuel depth [] rest
  | _ + 1, 0, .scalar '{' :: _ => .error .deepObject
  | fuel + 1, depth + 1, .scalar '{' :: rest =>
    match skipSpace rest with
    | .scalar '}' :: rest => .ok (object [], rest)
    | rest => readFields limit fuel depth [] rest
  | _ + 1, _, t =>
    match readScalar limit t with
    | none => .error .malformed
    | some found => .ok found

/-- Reads the items of a list up to and with its bracket; `done` holds those
read, in reverse. -/
def readItems (limit : Option Nat) :
    (fuel depth : Nat) → List Json → Text → Except ReadFault (Json × Text)
  | 0, _, _, _ => .error .malformed
  | fuel + 1, depth, done, t =>
    match readValue limit fuel depth t with
    | .error fault => .error fault
    | .ok (item, rest) =>
      match skipSpace rest with
      | .scalar ',' :: rest => readItems limit fuel depth (item :: done) (skipSpace rest)
      | .scalar ']' :: rest => .ok (list (item :: done).reverse, rest)
      | _ => .error .malformed

/-- Reads the fields of an object up to and with its brace. -/
def readFields (limit : Option Nat) :
    (fuel depth : Nat) → List (Text × Json) → Text → Except ReadFault (Json × Text)
  | 0, _, _, _ => .error .malformed
  | fuel + 1, depth, done, t =>
    match t with
    | .scalar '"' :: rest =>
      match readString false [] rest with
      | none => .error .malformed
      | some (name, rest) =>
        match skipSpace rest with
        | .scalar ':' :: rest =>
          match readValue limit fuel depth (skipSpace rest) with
          | .error fault => .error fault
          | .ok (value, rest) =>
            match skipSpace rest with
            | .scalar ',' :: rest =>
              readFields limit fuel depth ((name, value) :: done) (skipSpace rest)
            | .scalar '}' :: rest => .ok (object ((name, value) :: done).reverse, rest)
            | _ => .error .malformed
        | _ => .error .malformed
    | _ => .error .malformed

end

/-- Reads a whole text as one value. Every two levels of the reader consume a
character, which bounds their number. -/
def ofText (limit : Option Nat) (depth : Nat) (t : Text) : Except ReadFault Json :=
  match readValue limit (2 * t.length + 2) depth (skipSpace t) with
  | .error fault => .error fault
  | .ok (value, rest) =>
    if (skipSpace rest).isEmpty then .ok value else .error .malformed

end TapeMachine.Json

/-!
Text as a list of code points. A code point is a Unicode scalar or a surrogate
that stands alone: escapes and lenient decoders can both deliver a lone
surrogate, and every offset and length here counts it as one position.
-/

namespace TapeMachine

inductive CodePoint
  | scalar (c : Char)
  | surrogate (index : Fin 2048)
  deriving DecidableEq, Inhabited

abbrev Text := List CodePoint

namespace CodePoint

def value : CodePoint → Nat
  | scalar c => c.toNat
  | surrogate index => 0xd800 + index.val

/-- Numbers past the last code point give none. -/
def ofValue? (n : Nat) : Option CodePoint :=
  if h : 0xd800 ≤ n ∧ n < 0xe000 then
    some (surrogate ⟨n - 0xd800, by omega⟩)
  else if n < 0x110000 then
    some (scalar (Char.ofNat n))
  else
    none

def lowByte (c : CodePoint) : UInt8 :=
  UInt8.ofNat c.value

def isHighSurrogate : CodePoint → Bool
  | scalar _ => false
  | surrogate index => index.val < 0x400

def isLowSurrogate : CodePoint → Bool
  | scalar _ => false
  | surrogate index => 0x400 ≤ index.val

/-- The supplementary scalar that a high and a low surrogate spell together. -/
def joinSurrogates (high low : CodePoint) : CodePoint :=
  scalar (Char.ofNat
    (0x10000 + (high.value - 0xd800) * 0x400 + (low.value - 0xdc00)))

end CodePoint

namespace Text

def ofString (s : String) : Text :=
  s.toList.map .scalar

/-- A lone surrogate has no place in a `String` and shows as U+FFFD. -/
def display (t : Text) : String :=
  String.ofList (t.map fun
    | .scalar c => c
    | .surrogate _ => Char.ofNat 0xfffd)

/-- Bytes as the characters with those numbers. -/
def ofBytes (bytes : List UInt8) : Text :=
  bytes.map fun b => .scalar (Char.ofNat b.toNat)

def startsWith (t : Text) (c : Char) : Bool :=
  t.head? = some (.scalar c)

/-- Texts one after another with a separator between them. -/
def join (separator : String) (texts : List Text) : Text :=
  (texts.intersperse (ofString separator)).flatten

/-- ASCII letters in lower case, all else as it is. -/
def toLower (t : Text) : Text :=
  t.map fun
    | .scalar c => .scalar c.toLower
    | other => other

/-- Splits at the first occurrence of `c`, which is dropped; the second part
is none where `c` does not occur. -/
def cut (c : Char) (t : Text) : Text × Option Text :=
  match t.dropWhile (· ≠ .scalar c) with
  | [] => (t, none)
  | _ :: rest => (t.takeWhile (· ≠ .scalar c), some rest)

/-- The pieces between occurrences of `c`, empty ones included. -/
def splitAt (c : Char) : Text → List Text
  | [] => [[]]
  | x :: rest =>
    match splitAt c rest with
    | [] => [[x]]
    | piece :: pieces =>
      if x = .scalar c then [] :: piece :: pieces
      else (x :: piece) :: pieces

end Text

end TapeMachine

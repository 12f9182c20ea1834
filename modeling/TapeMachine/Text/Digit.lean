import TapeMachine.Text

/-!
Digits: the decimal digits of every script, and the hexadecimal ones of ASCII.
Each script has its ten decimal digits in a row, so a table of the zeros is
enough.
-/

namespace TapeMachine.Text

/-- The characters with decimal digit value zero, in order. -/
def zeros : List Nat :=
  [
    0x30, 0x660, 0x6f0, 0x7c0, 0x966, 0x9e6, 0xa66,
    0xae6, 0xb66, 0xbe6, 0xc66, 0xce6, 0xd66, 0xde6,
    0xe50, 0xed0, 0xf20, 0x1040, 0x1090, 0x17e0, 0x1810,
    0x1946, 0x19d0, 0x1a80, 0x1a90, 0x1b50, 0x1bb0, 0x1c40,
    0x1c50, 0xa620, 0xa8d0, 0xa900, 0xa9d0, 0xa9f0, 0xaa50,
    0xabf0, 0xff10, 0x104a0, 0x10d30, 0x11066, 0x110f0, 0x11136,
    0x111d0, 0x112f0, 0x11450, 0x114d0, 0x11650, 0x116c0, 0x11730,
    0x118e0, 0x11950, 0x11c50, 0x11d50, 0x11da0, 0x16a60, 0x16ac0,
    0x16b50, 0x1d7ce, 0x1d7d8, 0x1d7e2, 0x1d7ec, 0x1d7f6, 0x1e140,
    0x1e2f0, 0x1e950, 0x1fbf0
  ]

/-- The value of a decimal digit of any script. -/
def digit? (c : CodePoint) : Option Nat :=
  if c.value < 0x80 then
    if 0x30 ≤ c.value ∧ c.value < 0x3a then some (c.value - 0x30) else none
  else
    (zeros.find? fun first => first ≤ c.value ∧ c.value < first + 10).map
      fun first => c.value - first

def isDigit (c : CodePoint) : Bool :=
  (digit? c).isSome

def isAsciiDigit : CodePoint → Bool
  | .scalar c => c.isDigit
  | .surrogate _ => false

def hexDigit? : CodePoint → Option Nat
  | .surrogate _ => none
  | .scalar c =>
    if c.isDigit then some (c.toNat - 0x30)
    else if 'a' ≤ c ∧ c ≤ 'f' then some (c.toNat - 0x57)
    else if 'A' ≤ c ∧ c ≤ 'F' then some (c.toNat - 0x37)
    else none

def isHexDigit (c : CodePoint) : Bool :=
  (hexDigit? c).isSome

end TapeMachine.Text

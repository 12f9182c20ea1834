import TapeMachine.Text.Printable

/-!
The quoted form of a text: between single quotes, or between double ones if
the text holds single quotes only. The quote in use, the backslash, line feed,
carriage return and tab are escaped by a letter and characters that are not
printable by their number.
-/

namespace TapeMachine.Text

/-- The lowest `width` hexadecimal digits of a number. -/
def hexDigits : (width n : Nat) → List Char
  | 0, _ => []
  | width + 1, n => hexDigits width (n / 16) ++ [Nat.digitChar (n % 16)]

/-- A character by its number, in the shortest of the three escapes. -/
def numericEscape (n : Nat) : List Char :=
  if n < 0x100 then '\\' :: 'x' :: hexDigits 2 n
  else if n < 0x10000 then '\\' :: 'u' :: hexDigits 4 n
  else '\\' :: 'U' :: hexDigits 8 n

def quotedChar (quote : Char) : CodePoint → List Char
  | .surrogate index => numericEscape (0xd800 + index.val)
  | .scalar c =>
    if c = quote ∨ c = '\\' then ['\\', c]
    else if c = '\n' then ['\\', 'n']
    else if c = '\r' then ['\\', 'r']
    else if c = '\t' then ['\\', 't']
    else if isPrintable c then [c]
    else numericEscape c.toNat

def quoteFor (t : Text) : Char :=
  if t.contains (.scalar '\'') && !t.contains (.scalar '"') then '"' else '\''

def quoted (t : Text) : List Char :=
  let quote := quoteFor t
  quote :: t.flatMap (quotedChar quote) ++ [quote]

def quote (t : Text) : String :=
  String.ofList (quoted t)

end TapeMachine.Text

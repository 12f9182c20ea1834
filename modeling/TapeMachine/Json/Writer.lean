import TapeMachine.Json
import TapeMachine.Number.Shortest
import TapeMachine.Text.Quoted

/-!
Writing JSON as plain ASCII on one line: a blank after each comma and colon,
fields in their order, and every character beyond ASCII as one or two escapes
of four hexadecimal digits.
-/

namespace TapeMachine.Json

def unitEscape (n : Nat) : List Char :=
  '\\' :: 'u' :: Text.hexDigits 4 n

/-- A character within a string. Supplementary characters are written as the
surrogate pair that spells them. -/
def writeChar (c : CodePoint) : List Char :=
  match c with
  | .scalar '"' => ['\\', '"']
  | .scalar '\\' => ['\\', '\\']
  | .scalar '\n' => ['\\', 'n']
  | .scalar '\r' => ['\\', 'r']
  | .scalar '\t' => ['\\', 't']
  | .scalar '\x08' => ['\\', 'b']
  | .scalar '\x0c' => ['\\', 'f']
  | .surrogate index => unitEscape (0xd800 + index.val)
  | .scalar c =>
    let n := c.toNat
    if 0x20 ≤ n ∧ n < 0x7f then [c]
    else if n < 0x10000 then unitEscape n
    else
      unitEscape (0xd800 + (n - 0x10000) / 0x400) ++
        unitEscape (0xdc00 + (n - 0x10000) % 0x400)

def writeText (t : Text) : String :=
  String.ofList ('"' :: t.flatMap writeChar ++ ['"'])

def writeReal : Binary64 → String
  | .nan => "NaN"
  | .infinite false => "Infinity"
  | .infinite true => "-Infinity"
  | x => x.text

mutual

/-- Appends the text of a value to what was written before it. -/
def writeAfter (before : String) : Json → String
  | null => before ++ "null"
  | bool true => before ++ "true"
  | bool false => before ++ "false"
  | int n => before ++ toString n
  | real x => before ++ writeReal x
  | text t => before ++ writeText t
  | list [] => before ++ "[]"
  | list (item :: rest) => writeItems (writeAfter (before ++ "[") item) rest
  | object [] => before ++ "\x7b\x7d"
  | object ((name, value) :: rest) =>
    writeFields (writeAfter (before ++ "\x7b" ++ writeText name ++ ": ") value) rest

def writeItems (before : String) : List Json → String
  | [] => before ++ "]"
  | item :: rest => writeItems (writeAfter (before ++ ", ") item) rest

def writeFields (before : String) : List (Text × Json) → String
  | [] => before ++ "\x7d"
  | (name, value) :: rest =>
    writeFields (writeAfter (before ++ ", " ++ writeText name ++ ": ") value) rest

end

def write (value : Json) : String :=
  writeAfter "" value

end TapeMachine.Json

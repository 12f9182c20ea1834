import TapeMachine.Text.Quoted

/-!
Paths of files as a system takes them: bytes between slashes, in which a lone
surrogate of the upper half stands for the byte that it was made from.
-/

namespace TapeMachine.CommandLine

/-- A surrogate that stands for a byte above 127. -/
def isByteEscape : CodePoint → Bool
  | .scalar _ => false
  | .surrogate index => 0x480 ≤ index.val && index.val < 0x500

def isSurrogate : CodePoint → Bool
  | .scalar _ => false
  | .surrogate _ => true

/-- The bytes of a path in which every surrogate stands for one. -/
def pathBytes (path : Text) : List UInt8 :=
  path.flatMap fun
    | .scalar c => String.utf8EncodeChar c
    | .surrogate index => [UInt8.ofNat (index.val - 0x400)]

/-- The characters from `start` up to but not including `stop` have no bytes in
a path; `first` is the first of them. -/
structure PathFault where
  first : CodePoint
  start : Nat
  stop : Nat

def PathFault.message (fault : PathFault) : String :=
  let place :=
    if fault.stop = fault.start + 1 then
      let escape := String.ofList (Text.numericEscape fault.first.value)
      s!"character '{escape}' in position {fault.start}"
    else s!"characters in position {fault.start}-{fault.stop - 1}"
  s!"'utf-8' codec can't encode {place}: surrogates not allowed"

/-- The first fault of a path from `position` on. It begins at a surrogate that
stands for no byte and reaches to the end of the surrogates there. -/
def pathFault? : (position : Nat) → Text → Option PathFault
  | _, [] => none
  | position, c :: rest =>
    if isSurrogate c && !isByteEscape c then
      some ⟨c, position, position + 1 + (rest.takeWhile isSurrogate).length⟩
    else pathFault? (position + 1) rest

/-- A part of a path between slashes. -/
abbrev Name := List UInt8

def Name.ofString (s : String) : Name :=
  s.toUTF8.toList

/-- The entry of a directory for itself. -/
def selfName : Name := .ofString "."

/-- The entry of a directory for the one that it lies in. -/
def parentName : Name := .ofString ".."

/-- The names in a path, which are the nonempty parts between slashes. -/
def pathNames (path : Text) : List Name :=
  ((Text.splitAt '/' path).filter fun part => !part.isEmpty).map pathBytes

end TapeMachine.CommandLine

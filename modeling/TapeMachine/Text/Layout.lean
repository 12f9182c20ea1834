/-!
Text in columns: filled up with blanks on either side, or with zeros behind
the sign of a number. Longer text stands as it is.
-/

namespace TapeMachine.Layout

def blanks (width : Nat) (s : String) : String :=
  String.ofList (List.replicate (width - s.length) ' ')

def right (width : Nat) (s : String) : String :=
  blanks width s ++ s

def left (width : Nat) (s : String) : String :=
  s ++ blanks width s

/-- The sign counts as part of the width. -/
def zeroFilled (width : Nat) (n : Int) : String :=
  let digits := Nat.toDigits 10 n.natAbs
  let sign := if n < 0 then ['-'] else []
  String.ofList
    (sign ++ List.replicate (width - sign.length - digits.length) '0' ++ digits)

end TapeMachine.Layout

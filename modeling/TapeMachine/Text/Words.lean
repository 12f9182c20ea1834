import TapeMachine.Text

/-!
Blanks, and what they separate. Two classes differ in the four information
separators U+001C to U+001F: they part the words of a line but may not
surround a number.
-/

namespace TapeMachine.Text

/-- The blanks that may surround a number literal. -/
def isNumberBlank : CodePoint → Bool
  | .surrogate _ => false
  | .scalar c =>
    let n := c.toNat
    (0x09 ≤ n && n ≤ 0x0d) || n == 0x20 || n == 0x85 || n == 0xa0 ||
      n == 0x1680 || (0x2000 ≤ n && n ≤ 0x200a) || n == 0x2028 ||
      n == 0x2029 || n == 0x202f || n == 0x205f || n == 0x3000

/-- The blanks that part words. -/
def isBlank (c : CodePoint) : Bool :=
  isNumberBlank c || (0x1c ≤ c.value && c.value ≤ 0x1f)

/-- Drops what satisfies `p` from both ends. -/
def trimBy (p : CodePoint → Bool) (t : Text) : Text :=
  ((t.dropWhile p).reverse.dropWhile p).reverse

def trim : Text → Text :=
  trimBy isBlank

/-- The blank-separated words of a line, none of them empty. -/
def words : Text → List Text
  | [] => []
  | c :: rest =>
    if isBlank c then words rest
    else
      match rest with
      | [] => [[c]]
      | next :: _ =>
        if isBlank next then [c] :: words rest
        else
          match words rest with
          | [] => [[c]]
          | word :: more => (c :: word) :: more

end TapeMachine.Text

import TapeMachine.Program.Brackets
import TapeMachine.Text

/-!
Programs: the eight commands, and what a source text comes to. All characters
but the command characters are comment.
-/

namespace TapeMachine

inductive Command
  | right
  | left
  | increment
  | decrement
  | write
  | read
  | loopStart
  | loopEnd
  deriving DecidableEq, Inhabited

namespace Command

def ofChar? : Char → Option Command
  | '>' => some right
  | '<' => some left
  | '+' => some increment
  | '-' => some decrement
  | '.' => some write
  | ',' => some read
  | '[' => some loopStart
  | ']' => some loopEnd
  | _ => none

def toChar : Command → Char
  | right => '>'
  | left => '<'
  | increment => '+'
  | decrement => '-'
  | write => '.'
  | read => ','
  | loopStart => '['
  | loopEnd => ']'

/-- All commands, in the order in which they are listed for a user. -/
def all : List Command :=
  [right, left, increment, decrement, write, read, loopStart, loopEnd]

theorem ofChar?_toChar (c : Command) : ofChar? c.toChar = some c := by
  cases c <;> rfl

def ofCodePoint? : CodePoint → Option Command
  | .scalar c => ofChar? c
  | .surrogate _ => none

/-- The commands that a piece of a source stands for, if it is a stretch of the
list of the command characters; the empty piece is one. -/
def stretch? (piece : Text) : Option (List Command) :=
  let characters := all.map fun c => CodePoint.scalar c.toChar
  let isAt (place : Nat) := piece.isPrefixOf (characters.drop place)
  if (List.range all.length).any isAt then some (piece.filterMap ofCodePoint?) else none

def bracket? : Command → Option Bracket
  | loopStart => some .opening
  | loopEnd => some .closing
  | _ => none

end Command

/-- Entry `i` of `offsets` is the place in the source of command `i`, and entry
`i` of `partners` the partner of the bracket there. -/
structure Program where
  source : Text
  commands : Array Command
  offsets : Array Nat
  partners : Array (Option Partner)

namespace Program

/-- The commands of a source with their offsets, which count from `start`. -/
def locate : (start : Nat) → Text → List (Command × Nat)
  | _, [] => []
  | start, c :: rest =>
    match Command.ofCodePoint? c with
    | some command => (command, start) :: locate (start + 1) rest
    | none => locate (start + 1) rest

theorem locate_append (start : Nat) (a b : Text) :
    locate start (a ++ b) = locate start a ++ locate (start + a.length) b := by
  induction a generalizing start with
  | nil => simp [locate]
  | cons c rest ih =>
      simp only [List.cons_append, locate, ih, List.length_cons]
      have h : start + 1 + rest.length = start + (rest.length + 1) := by omega
      rw [h]
      split <;> rfl

def ofSource (source : Text) : Program :=
  let found := locate 0 source
  let commands := found.map Prod.fst
  { source
    commands := commands.toArray
    offsets := (found.map Prod.snd).toArray
    partners := Bracket.partners (commands.map Command.bracket?) }

/-- A program given piece by piece. The offsets are the places of the pieces
with commands, one for each piece, however many commands it has. -/
def ofPieces (pieces : List Text) : Program :=
  let found := pieces.zipIdx.filterMap fun (piece, i) =>
    (Command.stretch? piece).map fun commands => (commands, i)
  let commands := found.flatMap Prod.fst
  { source := pieces.flatten
    commands := commands.toArray
    offsets := (found.map Prod.snd).toArray
    partners := Bracket.partners (commands.map Command.bracket?) }

def length (p : Program) : Nat :=
  p.commands.size

theorem map_fst_locate (start : Nat) (source : Text) :
    (locate start source).map Prod.fst = source.filterMap Command.ofCodePoint? := by
  induction source generalizing start with
  | nil => rfl
  | cons c rest ih =>
      rw [locate, List.filterMap_cons]
      cases Command.ofCodePoint? c with
      | none => exact ih (start + 1)
      | some command => simp [ih]

theorem toList_commands_ofSource (source : Text) :
    (ofSource source).commands.toList = source.filterMap Command.ofCodePoint? :=
  map_fst_locate 0 source

@[simp]
theorem size_offsets_ofSource (source : Text) :
    (ofSource source).offsets.size = (ofSource source).length := by
  simp [ofSource, length]

/-- The command characters alone. -/
def commandText (p : Program) : Text :=
  p.commands.toList.map fun c => .scalar c.toChar

def summary (p : Program) : String :=
  s!"Program({p.length} ops)"

/-- The source offsets of the brackets without a partner, in order. -/
def unpairedOffsets (p : Program) : List Nat :=
  (Bracket.unpaired p.partners).filterMap fun i => p.offsets[i]?

/-- Why a program is refused where brackets must balance. -/
structure Unbalanced where
  offsets : List Nat

def Unbalanced.message (u : Unbalanced) : String :=
  "Unmatched bracket at source offset " ++ ", ".intercalate (u.offsets.map toString)

def requireBalanced (p : Program) : Except Unbalanced Unit :=
  match p.unpairedOffsets with
  | [] => .ok ()
  | offsets => .error ⟨offsets⟩

end Program

end TapeMachine

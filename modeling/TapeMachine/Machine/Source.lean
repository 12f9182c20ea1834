import TapeMachine.Machine.Core
import TapeMachine.Machine.Setting

/-!
What a program and its input are read from. Both are texts as a rule; any other
value that comes piece by piece is read piece by piece, and the rest is
refused.
-/

namespace TapeMachine

/-- The pieces of a value: the characters of a text, the items of a list or the
names of the fields of an object. -/
def Json.pieces? : Json → Option (List Json)
  | .text t => some (t.map fun c => .text [c])
  | .list items => some items
  | .object fields => some ((fields.map Prod.fst).eraseDups.map .text)
  | _ => none

/-- A piece of a source. Only texts can be searched for commands. -/
def sourcePiece : Json → Except Refusal Text
  | .text t => .ok t
  | value => .error (.notPiece value.kind)

def programOf (source : Json) : Except Refusal Program :=
  match source with
  | .text t => .ok (.ofSource t)
  | _ =>
    match source.pieces? with
    | none => .error (.notIterable source.kind)
    | some pieces => (pieces.mapM sourcePiece).map .ofPieces

/-- A piece of an input, which has to be a character. -/
def inputPiece : Json → Except Refusal CodePoint
  | .text [c] => .ok c
  | .text t => .error (.notOneCharacter t.length)
  | value => .error (.notCharacter value.kind)

def inputOf (input : Json) : Except Refusal (Array UInt8) :=
  match input with
  | .text t => .ok (Core.inputBytes t)
  | _ =>
    match input.pieces? with
    | none => .error (.notIterable input.kind)
    | some pieces => (pieces.mapM inputPiece).map Core.inputBytes

/-- The brackets among the pieces of a value; all other pieces are slots without
one. -/
def bracketsOf (value : Json) : Except Refusal (List (Option Bracket)) :=
  let bracket? : Json → Option Bracket
    | .text [.scalar c] => Bracket.ofChar? c
    | _ => none
  match value.pieces? with
  | none => .error (.noLength value.kind)
  | some pieces => .ok (pieces.map bracket?)

end TapeMachine

import TapeMachine.Json
import TapeMachine.Number.Shortest
import TapeMachine.Text.Quoted

/-!
Values as they are shown within a message: a text as it is, all else in a form
of its own, in which the texts inside lists and objects are quoted.
-/

namespace TapeMachine.Json

def truthText (b : Bool) : String :=
  if b then "True" else "False"

mutual

/-- A value with its texts in quotes. -/
def quoted : Json → String
  | null => "None"
  | bool b => truthText b
  | int n => toString n
  | real x => x.text
  | text t => t.quote
  | list items => "[" ++ ", ".intercalate (quotedItems items) ++ "]"
  | object fields => "\x7b" ++ ", ".intercalate (quotedFields fields) ++ "\x7d"

def quotedItems : List Json → List String
  | [] => []
  | item :: rest => quoted item :: quotedItems rest

def quotedFields : List (Text × Json) → List String
  | [] => []
  | (name, value) :: rest => s!"{name.quote}: {quoted value}" :: quotedFields rest

end

/-- A value as it is shown on its own. -/
def display : Json → Text
  | text t => t
  | value => Text.ofString (quoted value)

end TapeMachine.Json

import TapeMachine.Number.Binary64
import TapeMachine.Text

/-!
Data as it travels between the machine and its users: the JSON values, with
integers of any size apart from other numbers.
-/

namespace TapeMachine

inductive Json
  | null
  | bool (b : Bool)
  | int (n : Int)
  | real (x : Binary64)
  | text (t : Text)
  | list (items : List Json)
  | object (fields : List (Text × Json))

namespace Json

/-- The field of an object with a name. Of several, the last counts. -/
def field? (name : String) (fields : List (Text × Json)) : Option Json :=
  (fields.reverse.lookup (Text.ofString name))

/-- An object whose field names are known. -/
def record (fields : List (String × Json)) : Json :=
  object (fields.map fun (name, value) => (Text.ofString name, value))

def string (s : String) : Json :=
  text (Text.ofString s)

def nat (n : Nat) : Json :=
  int n

/-- An absent value is null. -/
def option (value : Option Json) : Json :=
  value.getD null

/-- Whether a value says yes: null, zero, false and all that is empty say
no. -/
def isTruthy : Json → Bool
  | null => false
  | bool b => b
  | int n => n != 0
  | real (.finite _ significand _) => significand != 0
  | real _ => true
  | text t => !t.isEmpty
  | list items => !items.isEmpty
  | object fields => !fields.isEmpty

/-- The word by which error texts name the kinds that are no number. -/
def kind : Json → String
  | null => "NoneType"
  | bool _ => "bool"
  | int _ => "int"
  | real _ => "float"
  | text _ => "str"
  | list _ => "list"
  | object _ => "dict"

end Json

end TapeMachine

import TapeMachine.Json
import TapeMachine.Number.Literal
import TapeMachine.Text.Quoted

/-!
Command lines with switches and one file. Long names may be cut short as long
as they stay unambiguous; a value follows its switch or is joined to it by an
equals sign; short names can be run together. All that comes after two dashes
alone is no switch, and two dashes as a joined value leave their switch without
one.
-/

namespace TapeMachine.CommandLine

inductive Key
  | help
  | input
  | inputFile
  | tapeSize
  | maxSteps
  | port
  | strict
  | trace
  | verbose
  deriving DecidableEq

inductive Takes
  | nothing
  | text
  | integer
  deriving DecidableEq

/-- A switch may not be given together with its `rival`. Only switches that
take nothing have short names. -/
structure Switch where
  key : Key
  names : List String
  takes : Takes
  rival : Option Key := none

/-- The number given to a switch, or that it was left without one. -/
inductive Quantity
  | number (n : Int)
  | void

namespace Quantity

def toJson : Quantity → Json
  | number n => .int n
  | void => .list []

def text : Quantity → String
  | number n => toString n
  | void => "[]"

end Quantity

/-- A text left out is empty, and an empty name is that of no file. -/
structure Arguments where
  file : Text := []
  input : Text := []
  inputFile : Text := []
  tapeSize : Quantity := .number 30000
  maxSteps : Option Quantity := none
  port : Quantity := .number 8000
  strict : Bool := false
  trace : Bool := false
  verbose : Bool := false

/-- Why a command line gives no arguments: it asks for help or has an error. -/
inductive Stop
  | help
  | error (message : Text)

def Switch.title (s : Switch) : String :=
  "/".intercalate s.names

def Switch.objection (s : Switch) (message : String) : Stop :=
  .error (Text.ofString s!"argument {s.title}: {message}")

def dash : CodePoint := .scalar '-'

/-- What ends the switches of a command line. -/
def endMark : Text := [dash, dash]

/-- What a piece of the command line is taken for. A switch comes with the name
it is called by and the value joined to it. -/
inductive Tag
  | plain
  | dashes
  | switch (s : Switch) (name : Text) (joined : Option Text)
  | unknown

/-- Every name with its switch, in order. -/
def spellings (grammar : List Switch) : List (Text × Switch) :=
  grammar.flatMap fun s => s.names.map fun name => (Text.ofString name, s)

def find? (grammar : List Switch) (name : Text) : Option Switch :=
  (spellings grammar).lookup name

/-- A minus with digits, or with digits after a point; a line feed may end
it. -/
def looksNegative (piece : Text) : Bool :=
  match piece with
  | .scalar '-' :: rest =>
    let rest := if rest.getLast? = some (.scalar '\n') then rest.dropLast else rest
    match rest.dropWhile Text.isDigit with
    | [] => !rest.isEmpty
    | .scalar '.' :: part => !part.isEmpty && part.all Text.isDigit
    | _ => false
  | _ => false

/-- The switches that a piece without an exact name can mean. -/
def candidates (grammar : List Switch) (piece : Text) : List (Text × Switch × Option Text) :=
  if endMark.isPrefixOf piece then
    let (start, value) := Text.cut '=' piece
    ((spellings grammar).filter fun (name, _) => start.isPrefixOf name).map
      fun (name, s) => (name, s, value)
  else
    ((spellings grammar).filter fun (name, _) => name = piece.take 2).map
      fun (name, s) => (name, s, some (piece.drop 2))

def ambiguous (piece : Text) (names : List Text) : Stop :=
  .error (Text.ofString "ambiguous option: " ++ piece ++ Text.ofString " could match " ++
    Text.join ", " names)

/-- The tag of a piece that begins with a dash and is more than that. -/
def tagDashed (grammar : List Switch) (piece : Text) : Except Stop Tag :=
  match find? grammar piece, Text.cut '=' piece with
  | some s, _ => .ok (.switch s piece none)
  | none, (name, value) =>
    match value, find? grammar name with
    | some value, some s => .ok (.switch s name (some value))
    | _, _ =>
      match candidates grammar piece with
      | [(name, s, joined)] => .ok (.switch s name joined)
      | [] =>
        .ok (if looksNegative piece || piece.contains (.scalar ' ') then .plain else .unknown)
      | several => .error (ambiguous piece (several.map Prod.fst))

def tag (grammar : List Switch) (piece : Text) : Except Stop Tag :=
  if Text.startsWith piece '-' && 1 < piece.length then tagDashed grammar piece
  else .ok .plain

/-- The pieces with their tags; from two dashes alone on they are plain. -/
def tagAll (grammar : List Switch) : List Text → Except Stop (List (Text × Tag))
  | [] => .ok []
  | piece :: rest =>
    if piece = endMark then .ok ((piece, .dashes) :: rest.map fun piece => (piece, .plain))
    else
      match tag grammar piece with
      | .error stop => .error stop
      | .ok found => (tagAll grammar rest).map ((piece, found) :: ·)

/-- What was read so far. `fileJustRead` tells that the last piece was the
file, `given` lists the switches given a value other than the default, and
`extras` the pieces of no use, latest first. -/
structure Progress where
  file : Option Text := none
  fileJustRead : Bool := false
  arguments : Arguments := {}
  given : List Key := []
  extras : List Text := []

def Progress.addExtra (p : Progress) (piece : Text) : Progress :=
  { p with extras := piece :: p.extras, fileJustRead := false }

namespace Arguments

def setText (a : Arguments) (value : Text) : Key → Arguments
  | .input => { a with input := value }
  | .inputFile => { a with inputFile := value }
  | _ => a

def setQuantity (a : Arguments) (value : Quantity) : Key → Arguments
  | .tapeSize => { a with tapeSize := value }
  | .maxSteps => { a with maxSteps := some value }
  | .port => { a with port := value }
  | _ => a

/-- Leaves a switch that was given without a value. -/
def setNothing (a : Arguments) (s : Switch) : Arguments :=
  (a.setText [] s.key).setQuantity .void s.key

def setFlag (a : Arguments) : Key → Arguments
  | .strict => { a with strict := true }
  | .trace => { a with trace := true }
  | .verbose => { a with verbose := true }
  | _ => a

end Arguments

namespace Progress

/-- Notes that a switch was given, unless its rival was. -/
def give (grammar : List Switch) (p : Progress) (s : Switch) : Except Stop Progress :=
  let p := { p with given := s.key :: p.given }
  match s.rival with
  | none => .ok p
  | some rival =>
    if p.given.contains rival then
      let title := ((grammar.find? fun other => other.key = rival).map Switch.title).getD ""
      .error (s.objection s!"not allowed with argument {title}")
    else .ok p

def applyText (grammar : List Switch) (p : Progress) (s : Switch) (value : Text) :
    Except Stop Progress :=
  let set (p : Progress) := { p with arguments := p.arguments.setText value s.key }
  if s.key = .input ∧ value.isEmpty then .ok (set p)
  else (p.give grammar s).map set

def applyInteger (grammar : List Switch) (p : Progress) (s : Switch) (value : Text) :
    Except Stop Progress :=
  match Literal.integer value with
  | .error _ => .error (s.objection s!"invalid int value: {Text.quote value}")
  | .ok n =>
    (p.give grammar s).map fun p =>
      { p with arguments := p.arguments.setQuantity (.number n) s.key }

/-- Acts on a switch that takes nothing. -/
def applyFlag (p : Progress) (s : Switch) : Except Stop Progress :=
  if s.key = .help then .error .help
  else .ok { p with arguments := p.arguments.setFlag s.key, fileJustRead := false }

/-- Acts on a switch with its value. -/
def applyValue (grammar : List Switch) (p : Progress) (s : Switch) (value : Text) :
    Except Stop Progress :=
  let p := { p with fileJustRead := false }
  if value = endMark then
    (p.give grammar s).map fun p => { p with arguments := p.arguments.setNothing s }
  else if s.takes = .integer then p.applyInteger grammar s value
  else p.applyText grammar s value

def applyFlags (p : Progress) : List Switch → Except Stop Progress
  | [] => .ok p
  | s :: rest =>
    match p.applyFlag s with
    | .error stop => .error stop
    | .ok p => p.applyFlags rest

end Progress

def Switch.ignored (s : Switch) (value : Text) : Stop :=
  s.objection s!"ignored explicit argument {Text.quote value}"

/-- The switches that are run together after a short one. -/
def runOn (grammar : List Switch) (s : Switch) : Text → Except Stop (List Switch)
  | [] => .ok [s]
  | c :: rest =>
    match find? grammar [dash, c] with
    | none => .error (s.ignored (c :: rest))
    | some next => (runOn grammar next rest).map (s :: ·)

/-- The switches of a piece that begins with one that takes nothing and has
something joined to it. -/
def spread (grammar : List Switch) (s : Switch) (name joined : Text) :
    Except Stop (List Switch) :=
  if joined.isEmpty || endMark.isPrefixOf name then .error (s.ignored joined)
  else runOn grammar s joined

/-- Reads tagged pieces from left to right. The first plain piece that is no
value is the file; two dashes right before or after it go with it. -/
def readAll (grammar : List Switch) : List (Text × Tag) → Progress → Except Stop Progress
  | [], p => .ok p
  | (piece, .plain) :: rest, p =>
    if p.file.isNone then
      readAll grammar rest { p with file := some piece, fileJustRead := true }
    else readAll grammar rest (p.addExtra piece)
  | (piece, .dashes) :: rest, p =>
    if p.fileJustRead || (p.file.isNone && !rest.isEmpty) then
      readAll grammar rest { p with fileJustRead := false }
    else readAll grammar rest (p.addExtra piece)
  | (piece, .unknown) :: rest, p => readAll grammar rest (p.addExtra piece)
  | (_, .switch s name (some joined)) :: rest, p =>
    match
      if s.takes = .nothing then
        match spread grammar s name joined with
        | .error stop => .error stop
        | .ok switches => p.applyFlags switches
      else p.applyValue grammar s joined with
    | .error stop => .error stop
    | .ok p => readAll grammar rest p
  | (_, .switch s _ none) :: rest, p =>
    if s.takes = .nothing then
      match p.applyFlag s with
      | .error stop => .error stop
      | .ok p => readAll grammar rest p
    else
      match rest with
      | (value, .plain) :: rest =>
        match p.applyValue grammar s value with
        | .error stop => .error stop
        | .ok p => readAll grammar rest p
      | _ => .error (s.objection "expected one argument")

/-- Reads a command line. -/
def parse (grammar : List Switch) (pieces : List Text) : Except Stop Arguments :=
  match tagAll grammar pieces with
  | .error stop => .error stop
  | .ok tagged =>
    match readAll grammar tagged {} with
    | .error stop => .error stop
    | .ok p =>
      match p.file, p.extras with
      | none, _ =>
        .error (.error (Text.ofString "the following arguments are required: file"))
      | some file, [] => .ok { p.arguments with file }
      | some _, extras =>
        .error (.error (Text.ofString "unrecognized arguments: " ++ Text.join " " extras.reverse))

end TapeMachine.CommandLine

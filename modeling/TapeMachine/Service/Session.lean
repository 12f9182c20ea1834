import TapeMachine.Json.Encoding
import TapeMachine.Machine.Action
import TapeMachine.Service.Target

/-!
The machine as a service: one session, and its answers to requests. Reading a
request comes before acting on it, so a refused request leaves the session as
it was.
-/

namespace TapeMachine

/-- A machine with the program and input to load again on a reset. -/
structure Session where
  machine : Machine
  program : Program
  input : Array UInt8

namespace Service

inductive Method
  | get
  | post

def Method.text : Method → String
  | .get => "GET"
  | .post => "POST"

/-- A request as it arrived: `contentLength` is the text of the header, if
there is one, and `body` all bytes that were sent after the headers. -/
structure Request where
  method : Method
  target : Text
  contentLength : Option Text
  body : List UInt8

/-- What leaves a request without any answer: an ill-formed host, a length
beyond all counts, or a body whose values lie too deep. -/
inductive Breakdown
  | target (fault : TargetFault)
  | length
  | deepList
  | deepObject

namespace Breakdown

def depthMessage (kind : String) : String :=
  s!"maximum recursion depth exceeded while decoding a JSON {kind} from a unicode string"

def message : Breakdown → String
  | target fault => fault.message
  | length => byteCountMessage
  | deepList => depthMessage "array"
  | deepObject => depthMessage "object"

end Breakdown

/-- What is asked for. Blanks around a target do not belong to it. -/
def Request.resource (r : Request) : Text :=
  collapseSlashes (Text.trim r.target)

structure Response where
  status : Nat
  body : Json

/-- Why a request is refused. -/
inductive Objection
  | unknownPath (path : Text)
  | contentLength
  | notJson
  | notObject
  | notStrings
  | badCount
  | refused (r : Refusal)

def Objection.message : Objection → Text
  | unknownPath path => Text.ofString "unknown path " ++ path
  | contentLength => Text.ofString "Content-Length must be an integer"
  | notJson => Text.ofString "body is not valid JSON"
  | notObject => Text.ofString "body must be a JSON object"
  | notStrings => Text.ofString "source and input must be strings"
  | badCount => Text.ofString "count must be a positive integer"
  | refused r => Text.ofString r.message

def Objection.status : Objection → Nat
  | unknownPath _ => 404
  | _ => 400

def Objection.response (o : Objection) : Response :=
  { status := o.status, body := .record [("error", .text o.message)] }

/-- What stands between a request and its order. -/
inductive Obstacle
  | objection (o : Objection)
  | breakdown (b : Breakdown)

def Obstacle.response : Obstacle → Except Breakdown Response
  | objection o => .ok o.response
  | breakdown b => .error b

def isBlank (c : CodePoint) : Bool :=
  c = .scalar ' ' || c = .scalar '\t'

def isIndented (t : Text) : Bool :=
  (t.head?.map isBlank).getD false

/-- The value of a header: it starts after blanks and ends with its line, unless
the next line is indented. -/
def headerValue (t : Text) : Text :=
  (value t).dropWhile isBlank
where
  value : Text → Text
    | [] => []
    | .scalar '\r' :: .scalar '\n' :: rest =>
      if isIndented rest then .scalar '\r' :: .scalar '\n' :: value rest else []
    | c :: rest =>
      if (c = .scalar '\r' || c = .scalar '\n') && !isIndented rest then []
      else c :: value rest

/-- What follows the first blank line in a text. -/
def afterBlankLine : Text → Text
  | [] => []
  | .scalar '\n' :: .scalar '\n' :: rest => rest
  | .scalar '\n' :: .scalar '\r' :: .scalar '\n' :: rest => rest
  | _ :: rest => afterBlankLine rest

/-- The end of the last header, and the blank line after it. -/
def headerEnd : Text :=
  Text.ofString "\r\n\r\n"

/-- The bytes to read the body from. The first blank line ends the headers, so
with one in the last header they begin before the body does. -/
def Request.bytesAfterHeaders (r : Request) : List UInt8 :=
  match r.contentLength with
  | none => r.body
  | some t => (afterBlankLine (t ++ headerEnd)).map CodePoint.lowByte ++ r.body

/-- How many bytes of the body to read; an absent or empty header means
none. -/
def Request.bodyLength (r : Request) : Except Objection Int :=
  match r.contentLength.map headerValue with
  | none | some [] => .ok 0
  | some t =>
    match Literal.integer t with
    | .ok n => .ok n
    | .error _ => .error .contentLength

abbrev Fields := List (Text × Json)

/-- The fields of the object in the body. A body of no length counts as an
empty object, and a negative length reads all that was sent. So it is where the
whole request is at hand; a connection that is read through a buffer does the
same for -1, and for any length below that it fails as a body that is not JSON
does. -/
def Request.fields (r : Request) : Except Obstacle Fields :=
  match r.bodyLength with
  | .error o => .error (.objection o)
  | .ok n =>
    if n = 0 then .ok []
    else if isByteCount n then
      let bytes := r.bytesAfterHeaders
      match Json.ofBytes (if n < 0 then bytes else bytes.take n.toNat) with
      | .error .malformed => .error (.objection .notJson)
      | .error .deepList => .error (.breakdown .deepList)
      | .error .deepObject => .error (.breakdown .deepObject)
      | .ok (.object fields) => .ok fields
      | .ok _ => .error (.objection .notObject)
    else .error (.breakdown .length)

/-- What an accepted request asks for. -/
inductive Order
  | load (source input : Text)
  | step (count : Int)
  | reset
  | speed (delay : Number) (steps : Nat)

inductive Route
  | load
  | step
  | reset
  | speed

def Route.ofPath? (path : Text) : Option Route :=
  ([("/load", .load), ("/step", .step), ("/reset", .reset), ("/speed", .speed)].find?
    fun (name, _) => Text.ofString name = path).map Prod.snd

def readLoad (fields : Fields) : Except Objection Order :=
  match (Json.field? "source" fields).getD (.text []),
    (Json.field? "input" fields).getD (.text []) with
  | .text source, .text input => .ok (.load source input)
  | _, _ => .error .notStrings

def readStep (m : Machine) (fields : Fields) : Except Objection Order :=
  match (Json.field? "count" fields).getD (.nat m.stepsPerTick) with
  | .int n => if n < 1 then .error .badCount else .ok (.step n)
  | _ => .error .badCount

/-- A slider value settles both settings; without one each is taken from its
own field or stays. -/
def speedValues (m : Machine) (fields : Fields) : Except Refusal (Json × Json) :=
  match Json.field? "value" fields with
  | some value => (sliderOf value).map fun (delay, steps) => (.nat delay, .nat steps)
  | none =>
    .ok ((Json.field? "delay" fields).getD m.delay.toJson,
      (Json.field? "steps_per_tick" fields).getD (.nat m.stepsPerTick))

def readSpeed (m : Machine) (fields : Fields) : Except Refusal Order :=
  match speedValues m fields with
  | .error r => .error r
  | .ok (delay, steps) =>
    match delayOf delay with
    | .error r => .error r
    | .ok delay => (stepsOf steps).map fun steps => .speed delay steps

def Route.read (m : Machine) (fields : Fields) : Route → Except Objection Order
  | .load => readLoad fields
  | .step => readStep m fields
  | .reset => .ok .reset
  | .speed =>
    match readSpeed m fields with
    | .ok order => .ok order
    | .error r => .error (.refused r)

def Request.order (m : Machine) (r : Request) : Except Obstacle Order :=
  let path := r.resource
  match Route.ofPath? path with
  | none => .error (.objection (.unknownPath path))
  | some route =>
    match r.fields with
    | .error obstacle => .error obstacle
    | .ok fields => (route.read m fields).mapError .objection

end Service

namespace Session

open Service

def defaultRadius : Int := 15

def install (m : Machine) (program : Program) (input : Array UInt8) : Session :=
  { machine := m.install program input, program, input }

def load (s : Session) (source input : Text) : Session :=
  install s.machine (.ofSource source) (Core.inputBytes input)

def open? (source input tapeSize : Json) (memory : Memory := .usual) :
    Except Refusal Session := do
  let machine ← Machine.make tapeSize memory
  pure (install machine (← programOf source) (← inputOf input))

def reset (s : Session) : Session :=
  install (s.machine.reset false) s.program s.input

/-- The machine's state as data, with the program on demand. -/
def state (m : Machine) (withProgram : Bool) (radius : Int) : Json :=
  let c := m.core
  let (start, cells) := c.window radius
  let program :=
    if withProgram then
      [("ops", Json.text c.program.commandText),
        ("source_map", .list (c.program.offsets.toList.map .nat))]
    else []
  .record
    ([("pc", Json.nat c.pc),
      ("ptr", .nat c.ptr),
      ("cell", .nat c.cell.toNat),
      ("step_count", .nat c.stepCount),
      ("finished", .bool c.halted),
      ("run_state", .string m.runState.text),
      ("tape_size", .nat m.tapeSize),
      ("program_length", .nat c.program.length),
      ("source_offset", .option (c.sourceOffset?.map .nat)),
      ("output", .text c.outputText),
      ("delay", m.delay.toJson),
      ("steps_per_tick", .nat m.stepsPerTick),
      ("tape", .record
        [("start", .nat start),
          ("data", .list (cells.map fun b => .nat b.toNat))])] ++ program)

/-- The state, with the cells within the distance that a value stands for. -/
def stateOf (m : Machine) (withProgram : Bool) (radius : Json) : Except Refusal Json :=
  (distanceOf radius m.core.ptr m.tapeSize .notBound).map (state m withProgram)

/-- Carries out an order, with the answer to it. -/
def obey (s : Session) : Order → Session × Json
  | .load source input =>
    let s := s.load source input
    (s, state s.machine true defaultRadius)
  | .step count =>
    let before := s.machine.core.stepCount
    let s := { s with machine := (s.machine.batch (some count)).1 }
    let c := s.machine.core
    (s, .record
      [("steps_executed", .nat (c.stepCount - before)), ("finished", .bool c.halted)])
  | .reset => (s.reset, .record [("status", .string "ok")])
  | .speed delay stepsPerTick =>
    ({ s with machine := { s.machine with delay, stepsPerTick } },
      .record [("delay", delay.toJson), ("steps_per_tick", .nat stepsPerTick)])

/-- The notices of an order that led from one session to another. -/
def notices (before after : Session) : Order → List Notice
  | .load _ _ => after.machine.loadNotices
  | .step _ => Machine.haltNotices before.machine after.machine
  | .reset => .reset (.bool false) :: after.machine.loadNotices
  | .speed _ _ => []

def respondToPost (s : Session) (r : Request) :
    Session × Except Breakdown Response × List Notice :=
  match r.order s.machine with
  | .error obstacle => (s, obstacle.response, [])
  | .ok order =>
    let (after, body) := s.obey order
    (after, .ok ⟨200, body⟩, notices s after order)

/-- The state is the only thing to get; the key `init` asks for the program
too. -/
def respondToGet (s : Session) (r : Request) : Except Breakdown Response :=
  match Target.parse r.resource with
  | .error fault => .error (.target fault)
  | .ok target =>
    if target.path = Text.ofString "/state" then
      let withProgram := (queryKeys target.query).contains (Text.ofString "init")
      .ok ⟨200, state s.machine withProgram defaultRadius⟩
    else .ok (Objection.unknownPath target.path).response

/-- Answers a request. -/
def respond (s : Session) (r : Request) :
    Session × Except Breakdown Response × List Notice :=
  match r.method with
  | .get => (s, s.respondToGet r, [])
  | .post => s.respondToPost r

def perform (s : Session) (action : Action) : Option (Session × Except Refusal Reply) :=
  (s.machine.perform action).map fun (machine, answer) => ({ s with machine }, answer)

end Session

end TapeMachine

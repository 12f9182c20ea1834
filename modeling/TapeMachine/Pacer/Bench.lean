import TapeMachine.Machine.Action
import TapeMachine.Pacer

/-!
A pacer on a bench: its ticks wait in a queue until they are fired by hand,
and its two callbacks note each call and then act by a script, which may start
the pacer again from within.
-/

namespace TapeMachine

/-- What a callback can do. It can start the pacer, change the speed it finds, and
carry out any action on the machine. -/
inductive Move
  | start
  | pause
  | install (program : Program) (input : Array UInt8)
  | reset
  | faster
  | perform (action : Action)

/-- A callback that counts its calls; the script tells by the number of a call
what it does. -/
structure Callback where
  calls : Nat
  script : List (Nat × List Move)

def Callback.moves (c : Callback) : List Move :=
  (c.script.lookup c.calls).getD []

inductive Occasion
  | tick
  | halt
  deriving DecidableEq

/-- A call of a callback, with what it saw of the machine. -/
structure Event where
  occasion : Occasion
  stepCount : Nat
  runState : RunState

/-- A tick in the queue, with the delay it was scheduled for. -/
structure Ticket where
  id : Nat
  delay : Number

/-- The number `scheduled` counts the ticks ever scheduled; events are listed
latest first. -/
structure Bench where
  machine : Machine
  queue : List Ticket
  scheduled : Nat
  onTick : Option Callback
  onHalt : Option Callback
  events : List Event

namespace Bench

def ofMachine (machine : Machine) (onTick onHalt : Option Callback) : Bench :=
  { machine, queue := [], scheduled := 0, onTick, onHalt, events := [] }

/-- Puts a machine back; ticks that it has cancelled leave the queue. -/
def setMachine (b : Bench) (machine : Machine) : Bench :=
  { b with
    machine
    queue := b.queue.filter fun ticket => !machine.cancelled.contains (.tick ticket.id) }

def schedule (b : Bench) : Bench :=
  { b with
    queue := b.queue ++ [⟨b.scheduled, b.machine.delay⟩]
    scheduled := b.scheduled + 1
    machine := b.machine.park (.tick b.scheduled) }

/-- Twice the steps per tick and half the delay. -/
def faster (m : Machine) : Machine :=
  { m with stepsPerTick := 2 * m.stepsPerTick, delay := m.delay.floorHalf }

/-- Carries out an action on the machine itself. -/
def perform (b : Bench) (action : Action) : Option (Bench × Except Refusal Reply) :=
  (b.machine.perform action).map fun (machine, answer) => (b.setMachine machine, answer)

/-- Makes a move. An action without an outcome is left out. -/
def move (start : Bench → Bench) (b : Bench) : Move → Bench
  | .start => start b
  | .pause => b.setMachine b.machine.pause
  | .install program input => b.setMachine (b.machine.install program input)
  | .reset => b.setMachine (b.machine.reset false)
  | .faster => b.setMachine (faster b.machine)
  | .perform action => (b.perform action).elim b Prod.fst

def callback? (b : Bench) : Occasion → Option Callback
  | .tick => b.onTick
  | .halt => b.onHalt

def setCallback (b : Bench) (c : Callback) : Occasion → Bench
  | .tick => { b with onTick := some c }
  | .halt => { b with onHalt := some c }

/-- Calls a callback, if there is one, with what starts the pacer. -/
def call (occasion : Occasion) (start : Bench → Bench) (b : Bench) : Bench :=
  match b.callback? occasion with
  | none => b
  | some c =>
    let c := { c with calls := c.calls + 1 }
    let event := ⟨occasion, b.machine.core.stepCount, b.machine.runState⟩
    let b := { b.setCallback c occasion with events := event :: b.events }
    c.moves.foldl (move start) b

/-- The pacer whose callbacks can start it again from within, `depth` levels
deep. -/
def pacer : (depth : Nat) → Pacer Bench
  | 0 =>
    { machine := Bench.machine, setMachine, schedule
      onTick := call .tick id
      onHalt := call .halt id }
  | depth + 1 =>
    { machine := Bench.machine, setMachine, schedule
      onTick := call .tick (pacer depth).start
      onHalt := call .halt (pacer depth).start }

def scriptLength (c : Option Callback) : Nat :=
  match c with
  | none => 0
  | some c => c.script.foldl (fun total (_, moves) => total + moves.length) 0

/-- How deep the callbacks can nest: every level takes a move of a script, and
no move is made twice. -/
def depth (b : Bench) : Nat :=
  scriptLength b.onTick + scriptLength b.onHalt

def start (b : Bench) : Bench :=
  (pacer b.depth).start b

def pause (b : Bench) : Bench :=
  b.setMachine b.machine.pause

def tick (b : Bench) : Bench :=
  (pacer b.depth).tick b

/-- Fires the first tick of the queue; none if there is none. -/
def fire? (b : Bench) : Option Bench :=
  match b.queue with
  | [] => none
  | _ :: rest => some { b with queue := rest }.tick

/-- Fires up to `n` ticks, with the number fired. -/
def fireUpTo : Nat → Bench → Bench × Nat
  | 0, b => (b, 0)
  | n + 1, b =>
    match b.fire? with
    | none => (b, 0)
    | some b =>
      let (b, fired) := fireUpTo n b
      (b, fired + 1)

/-- Calls back for the tick of the given number, queued or not; none if there
never was one. -/
def replay? (b : Bench) (id : Int) : Option Bench :=
  if 0 ≤ id ∧ id < b.scheduled then some b.tick else none

/-- The events since the last time, in order, and the bench without them. -/
def takeEvents (b : Bench) : List Event × Bench :=
  (b.events.reverse, { b with events := [] })

end Bench

end TapeMachine

import TapeMachine.Pacer
import TapeMachine.Text.Layout

/-!
A panel with buttons, an editor and a view of the tape, that lets a machine
run at a chosen speed. Its parts hold what they were last told; the view is
told the state of the machine after every change.
-/

namespace TapeMachine

/-- A column of the tape view. A blank one shows no cell. -/
inductive Column
  | blank
  | cell (index : Nat) (value : UInt8) (current : Bool)

namespace Column

def label? : Column → Option (String × String)
  | blank => none
  | cell index value _ => some (toString index, Layout.zeroFilled 3 value.toNat)

def isCurrent : Column → Bool
  | blank => false
  | cell _ _ current => current

end Column

inductive Status
  | position (steps pc length ptr : Nat) (cell : UInt8) (runState : RunState)
  | finished (steps : Nat)

def Status.text : Status → String
  | position steps pc length ptr cell runState =>
    s!"Step: {steps} | PC: {pc}/{length} | Ptr: {ptr} | Cell: {cell} | {runState.text}"
  | finished steps => s!"Finished after {steps} steps"

/-- A timer that will call for a tick. -/
structure Timer where
  id : Nat
  milliseconds : Int

/-- The fields `editor` and `input` are what the user has typed, and `edited` is
set while a change of the editor has not been taken up; `highlight` is the
offset of the marked character. -/
structure Panel where
  machine : Machine
  editor : Text
  edited : Bool
  input : Text
  runEnabled : Bool
  stepEnabled : Bool
  pauseEnabled : Bool
  editorEnabled : Bool
  columns : List Column
  highlight : Option Nat
  output : Text
  status : Status
  timers : List Timer
  timersMade : Nat

namespace Panel

def radius : Nat := 15

def startSpeed : Int := 70

def helloWorld : String :=
  "++++++++[>++++[>++>+++>+++>+<<<<-]>+>+>->>+[<]<-]" ++
    ">>.>---.+++++++..+++.>>.<-.<.+++.------.--------.>>+.>++."

/-- Puts a machine back; timers whose ticks it has cancelled go away. -/
def setMachine (p : Panel) (machine : Machine) : Panel :=
  { p with
    machine
    timers := p.timers.filter fun timer => !machine.cancelled.contains (.tick timer.id) }

def schedule (p : Panel) : Panel :=
  { p with
    timers := p.timers ++ [⟨p.timersMade, (p.machine.delay.truncate?).getD 0⟩]
    timersMade := p.timersMade + 1
    machine := p.machine.park (.tick p.timersMade) }

def updateStatus (p : Panel) : Panel :=
  let c := p.machine.core
  { p with
    status := .position c.stepCount c.pc c.program.length c.ptr c.cell p.machine.runState }

/-- The columns that show the cells around the pointer, as many as there are
on both sides of it, and blank ones for the rest. -/
def columnsOf (c : Core) : List Column :=
  let (start, values) := c.window radius
  let width := 2 * radius + 1
  let cells := (values.zipIdx start).map fun (value, i) => Column.cell i value (i = c.ptr)
  cells.take width ++ List.replicate (width - cells.length) .blank

def updateView (p : Panel) : Panel :=
  let c := p.machine.core
  { p with
    columns := columnsOf c
    highlight := c.sourceOffset?
    output := c.outputText }.updateStatus

def showStopped (p : Panel) : Panel :=
  { p with
    runEnabled := true
    stepEnabled := true
    pauseEnabled := false
    editorEnabled := true }.updateStatus

def pause (p : Panel) : Panel :=
  (p.setMachine p.machine.pause).showStopped

def finish (p : Panel) : Panel :=
  let p := p.pause
  { p with status := .finished p.machine.core.stepCount }

def pacer : Pacer Panel :=
  { machine := Panel.machine
    setMachine
    schedule
    onTick := updateView
    onHalt := finish }

/-- Loads what the user has typed. -/
def load (p : Panel) : Panel :=
  p.setMachine (p.machine.load p.editor p.input)

def reset (p : Panel) : Panel :=
  let p := p.pause
  (p.setMachine (p.machine.reset false)).load.updateView

/-- One step by hand, and whether the machine can go on. Without a program the
editor is loaded first. -/
def step (p : Panel) : Panel × Bool :=
  let p := if p.machine.core.program.length = 0 then p.load else p
  let (machine, alive) := p.machine.step
  let p := (p.setMachine machine).updateView
  (if alive then p else p.finish, alive)

/-- Starts the machine, from a fresh load if it has halted. -/
def run (p : Panel) : Panel :=
  if p.machine.runState = .running then p
  else
    let p := if p.machine.core.halted then p.load else p
    pacer.start
      { p with
        runEnabled := false
        stepEnabled := false
        pauseEnabled := true
        editorEnabled := false }

/-- Takes a slider value, of which the whole part counts. -/
def setSpeed (p : Panel) (value : Json) : Except Refusal Panel :=
  match Number.toReal value with
  | .error r => .error r
  | .ok x =>
    (Number.wholeOfReal x).map fun position =>
      let (delay, stepsPerTick) := sliderSpeed position
      { p with machine := { p.machine with delay := .int delay, stepsPerTick } }

/-- Takes up a change of the editor, by a reset unless the machine runs. -/
def takeUpEdit (p : Panel) : Panel :=
  if p.edited then
    let p := { p with edited := false }
    if p.machine.runState = .running then p else p.reset
  else p

/-- Types a text into the editor; none while it is disabled. -/
def edit? (p : Panel) (editor : Text) : Option Panel :=
  if p.editorEnabled then some { p with editor, edited := true }.takeUpEdit else none

def setEdited (p : Panel) (edited : Bool) : Panel :=
  { p with edited }.takeUpEdit

def setInput (p : Panel) (input : Text) : Panel :=
  { p with input }

/-- Lets the first timer run out; none if there is none. -/
def fire? (p : Panel) : Option Panel :=
  match p.timers with
  | [] => none
  | _ :: rest => some (pacer.tick { p with timers := rest })

/-- Lets up to `n` timers run out, with their number. -/
def fireUpTo : Nat → Panel → Panel × Nat
  | 0, p => (p, 0)
  | n + 1, p =>
    match p.fire? with
    | none => (p, 0)
    | some p =>
      let (p, fired) := fireUpTo n p
      (p, fired + 1)

/-- A panel as it comes up, with a program in the editor and loaded. -/
def make (editor : Text) : Panel :=
  let (delay, stepsPerTick) := sliderSpeed startSpeed
  let machine :=
    { Machine.blank Machine.defaultTapeSize with delay := .int delay, stepsPerTick }
  let p : Panel :=
    { machine
      editor
      edited := false
      input := []
      runEnabled := true
      stepEnabled := true
      pauseEnabled := false
      editorEnabled := true
      columns := []
      highlight := none
      output := []
      status := .finished 0
      timers := []
      timersMade := 0 }
  p.reset

end Panel

end TapeMachine

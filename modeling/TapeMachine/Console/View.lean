import TapeMachine.Machine
import TapeMachine.Text.Layout

/-!
A console for stepping through a program, and what it shows: the cells and the
commands around the current ones, and any part of the tape.
-/

namespace TapeMachine

/-- The breakpoints are in increasing order without repetition; `last` is the
command that an empty line repeats. -/
structure Console where
  program : Program
  input : Array UInt8
  machine : Machine
  breakpoints : List Int
  last : Text

namespace Console

def blue : String := "\x1b[94m"

def green : String := "\x1b[92m"

def yellow : String := "\x1b[93m"

def bold : String := "\x1b[1m"

def reverse : String := "\x1b[7m"

def plain : String := "\x1b[0m"

def open? (source input tapeSize : Json) (memory : Memory := .usual) :
    Except Refusal Console := do
  let machine ← Machine.make tapeSize memory
  let program ← programOf source
  let input ← inputOf input
  pure
    { program, input
      machine := machine.install program input
      breakpoints := []
      last := Text.ofString "s" }

/-- The integers from `start` up to but not including `stop`. -/
def span (start stop : Int) : List Int :=
  (List.range (stop - start).toNat).map fun (i : Nat) => start + i

/-- One cell of the tape line, the one under the pointer in brackets and
reversed. -/
def showCell (ptr : Nat) (value : UInt8) (i : Nat) : String :=
  let digits := Layout.zeroFilled 3 value.toNat
  if i = ptr then s!"{reverse}[{digits}]{plain} " else s!" {digits}  "

def showTape (c : Core) (window : Int) : String :=
  let (start, values) := c.window window
  String.join ((values.zipIdx start).map fun (value, i) => showCell c.ptr value i)

/-- One command of the listing with its number and source offset; a star marks
a breakpoint and an arrow the next command. -/
def showCommand (console : Console) (i : Nat) : String :=
  let c := console.machine.core
  let mark := if console.breakpoints.contains i then "*" else " "
  let symbol := ((c.program.commands[i]?).map fun command => command.toChar.toString).getD ""
  let offset := (c.program.offsets[i]?).getD 0
  let line := s!"{Layout.zeroFilled 4 i}: {symbol}  (src {offset})"
  if i = c.pc then s!"{green}->{mark}{line}{plain}\n" else s!"  {mark}{line}\n"

/-- The commands within a distance of the program counter. -/
def showProgram (console : Console) (context : Int) : String :=
  let c := console.machine.core
  let lines := span (max 0 (c.pc - context)) (min c.program.length (c.pc + context + 1))
  String.join (lines.map fun i => console.showCommand i.toNat)

def showHead (c : Core) : String :=
  s!"\n{bold}--- Step {c.stepCount} ---{plain}\n" ++
    s!"PC: {c.pc} / {c.program.length}\n" ++
    s!"Ptr: {c.ptr}\n"

def showHalt (c : Core) : String :=
  if c.halted then s!"{yellow}(halted){plain}\n" else ""

/-- The state of the machine, with the cells and the commands around the
current ones. -/
def stateView (console : Console) (window context : Int) : String :=
  let c := console.machine.core
  showHead c ++ s!"Loc: {showTape c window}\n" ++ console.showProgram context ++ showHalt c

def defaultWindow : Int := 8

def defaultContext : Int := 2

/-- The state of the machine, with distances that values stand for, down to the
first line whose distance is refused. -/
def stateViewOf (console : Console) (window context : Json) : String × Except Refusal Unit :=
  let c := console.machine.core
  match distanceOf window c.ptr c.tape.size .notBound with
  | .error r => (showHead c, .error r)
  | .ok window =>
    match distanceOf context c.pc c.program.length (.notInteger context.kind) with
    | .error r => (showHead c ++ s!"Loc: {showTape c window}\n", .error r)
    | .ok context => (console.stateView window context, .ok ())

def memoryTitle : String := "Memory Dump:\n"

/-- The cells from an address on, not past the end of the tape. Addresses
below zero count from the end. -/
def showMemory (console : Console) (address count : Int) : String :=
  let c := console.machine.core
  let line (i : Int) :=
    let marker := if i = c.ptr then " <" else ""
    s!"[{Layout.zeroFilled 5 i}]: {c.cellAt i}{marker}\n"
  memoryTitle ++
    String.join ((span address (min c.tape.size (address + count))).map line)

/-- The address to show all cells from, where address and count are not both
integers. Their sum is rounded, and has to reach the end of the tape. -/
def addressToEnd (size : Nat) (address count : Json) : Except Refusal Int := do
  let stop := (← Number.toReal address).add (← Number.toReal count)
  match (Number.ofJson? address).bind Number.integer? with
  | none => throw (.notInteger address.kind)
  | some start => if stop.isNotBelow size then pure start else throw (.notInteger count.kind)

/-- The cells from an address on, with numbers that values stand for. -/
def showMemoryOf (console : Console) (address count : Json) : String × Except Refusal Unit :=
  match Number.ofJson? address, Number.ofJson? count with
  | some first, some number =>
    match first.integer?, number.integer? with
    | some start, some count => (console.showMemory start count, .ok ())
    | _, _ =>
      let size := console.machine.tapeSize
      match addressToEnd size address count with
      | .ok start => (console.showMemory start (max 0 (size - start)), .ok ())
      | .error refusal => (memoryTitle, .error refusal)
  | _, _ => (memoryTitle, .error (sumRefusal address count))

end Console

end TapeMachine

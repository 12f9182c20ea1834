import TapeMachine.Program

/-!
The core of the machine: a loaded program, its tape and input, and what one
step does to them. A machine whose program counter is at or past the end of
the program is halted, and stepping leaves it as it is.
-/

namespace TapeMachine

structure Core where
  program : Program
  tape : Array UInt8
  ptr : Nat
  pc : Nat
  input : Array UInt8
  inputPos : Nat
  output : Array UInt8
  stepCount : Nat

namespace Core

def blankTape (size : Nat) : Array UInt8 :=
  Array.replicate size 0

/-- The bytes that a text gives to read. Characters above 255 count as their low
byte. -/
def inputBytes (input : Text) : Array UInt8 :=
  (input.map CodePoint.lowByte).toArray

/-- A program at its start, with input of which nothing is read. -/
def install (size : Nat) (program : Program) (input : Array UInt8) : Core :=
  { program
    tape := blankTape size
    ptr := 0
    pc := 0
    input
    inputPos := 0
    output := #[]
    stepCount := 0 }

def load (size : Nat) (source input : Text) : Core :=
  install size (.ofSource source) (inputBytes input)

/-- Back to the start of the program on a blank tape. The input goes on from
where it is unless it is rewound. -/
def restart (c : Core) (rewind : Bool) : Core :=
  { c with
    tape := blankTape c.tape.size
    ptr := 0
    pc := 0
    inputPos := if rewind then 0 else c.inputPos
    output := #[]
    stepCount := 0 }

def halted (c : Core) : Bool :=
  c.program.length ≤ c.pc

/-- The value under the pointer. -/
def cell (c : Core) : UInt8 :=
  c.tape.getD c.ptr 0

/-- Position `index` on the tape, which wraps at both ends. -/
def wrap (c : Core) (index : Int) : Nat :=
  (index % (c.tape.size : Int)).toNat

def cellAt (c : Core) (index : Int) : UInt8 :=
  c.tape.getD (c.wrap index) 0

def command? (c : Core) : Option Command :=
  c.program.commands[c.pc]?

/-- The offset in the source of the next command. -/
def sourceOffset? (c : Core) : Option Nat :=
  if c.halted then none else c.program.offsets[c.pc]?

def inputRemaining (c : Core) : Nat :=
  c.input.size - c.inputPos

def partner? (c : Core) : Option Partner :=
  (c.program.partners[c.pc]?).join

def mapCell (c : Core) (f : UInt8 → UInt8) : Core :=
  { c with tape := c.tape.modify c.ptr f, pc := c.pc + 1 }

/-- Reads a byte into the cell, zero once the input is used up. -/
def readByte (c : Core) : Core :=
  match c.input[c.inputPos]? with
  | some b => { c.mapCell (fun _ => b) with inputPos := c.inputPos + 1 }
  | none => c.mapCell (fun _ => 0)

/-- An opening on a zero cell leads behind its partner, past the end if it has
none. -/
def enterLoop (c : Core) : Core :=
  if c.cell = 0 then
    match c.partner? with
    | some (.slot index) => { c with pc := index + 1 }
    | _ => { c with pc := c.program.length + 1 }
  else { c with pc := c.pc + 1 }

/-- A closing on a nonzero cell leads behind its partner; without one it ends
the program. -/
def leaveLoop (c : Core) : Core :=
  if c.cell = 0 then { c with pc := c.pc + 1 }
  else
    match c.partner? with
    | some (.slot index) => { c with pc := index + 1 }
    | _ => { c with pc := c.program.length }

/-- What a command does, the step counter apart. -/
def execute (c : Core) : Command → Core
  | .right => { c with ptr := (c.ptr + 1) % c.tape.size, pc := c.pc + 1 }
  | .left =>
    { c with ptr := (c.ptr + (c.tape.size - 1)) % c.tape.size, pc := c.pc + 1 }
  | .increment => c.mapCell (· + 1)
  | .decrement => c.mapCell (· - 1)
  | .write => { c with output := c.output.push c.cell, pc := c.pc + 1 }
  | .read => c.readByte
  | .loopStart => c.enterLoop
  | .loopEnd => c.leaveLoop

def step (c : Core) : Core :=
  match c.command? with
  | none => c
  | some command => { c with stepCount := c.stepCount + 1 }.execute command

/-- How many doubling rounds of a search cover every run from here that halts
at all: what comes next depends only on the program counter, the pointer, the
tape and the input position, so a run with more steps than these have
combinations goes on for ever. -/
def searchRounds (c : Core) : Nat :=
  8 * c.tape.size + (c.program.length * c.tape.size * (c.input.size + 1)).log2 + 1

/-- The nonzero cells with their positions, in order. -/
def nonzeroCells (c : Core) : List (Nat × UInt8) :=
  (c.tape.toList.zipIdx.filter fun (value, _) => value != 0).map fun (value, i) => (i, value)

def outputText (c : Core) : Text :=
  Text.ofBytes c.output.toList

/-- The part of the tape from `start` up to `stop`. A negative end counts from
the end of the tape. -/
def slice (c : Core) (start : Nat) (stop : Int) : List UInt8 :=
  let stop := if stop < 0 then (stop + c.tape.size).toNat else stop.toNat
  (c.tape.extract start stop).toList

/-- The cells within a distance of the pointer, cut off at both ends of the
tape, and the position of the first. -/
def window (c : Core) (radius : Int) : Nat × List UInt8 :=
  let start := (c.ptr - radius).toNat
  (start, c.slice start (min c.tape.size (c.ptr + radius + 1)))

end Core

end TapeMachine

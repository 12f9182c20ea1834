import TapeMachine.Console.View
import TapeMachine.Machine.Action
import TapeMachine.Text.Words

/-!
The commands of a console. A blank line repeats the last command; a command is
known by its first letter.
-/

namespace TapeMachine.Console

def help : String :=
  "Commands: (s)tep [n], (c)ontinue, (b)reak <pc>, (m)em [addr] [count], " ++
    "(o)utput, (r)eset, (q)uit, enter to repeat last"

def atBreakpoint (console : Console) : Bool :=
  console.breakpoints.contains (console.machine.core.pc : Int)

def stepMachine (console : Console) : Console :=
  { console with machine := console.machine.step.1 }

/-- Steps at least once, then on until a halt or a breakpoint; gives the
breakpoint reached, and nothing if neither ever comes. -/
def goOn (console : Console) : Option (Console × Option Nat) :=
  let first := console.stepMachine
  let isDone (console : Console) := console.machine.core.halted || console.atBreakpoint
  (Loop.search isDone stepMachine first.machine.core.searchRounds first).map fun console =>
    let c := console.machine.core
    (console, if c.halted then none else some c.pc)

def breakpointLine (pc : Nat) : String :=
  s!"Breakpoint hit at {pc}\n"

/-- Starts over with the whole input. -/
def reset (console : Console) : Console :=
  { console with
    machine := (console.machine.reset false).install console.program console.input }

def resetNotices (console : Console) : List Notice :=
  .reset (.bool false) :: console.machine.loadNotices

def insertSorted (n : Int) : List Int → List Int
  | [] => [n]
  | m :: rest => if n < m then n :: m :: rest else m :: insertSorted n rest

/-- Sets a breakpoint, or removes it if it is set. -/
def toggle (console : Console) (pc : Int) : Console × String :=
  if console.breakpoints.contains pc then
    ({ console with breakpoints := console.breakpoints.erase pc },
      s!"Breakpoint removed at {pc}\n")
  else
    ({ console with breakpoints := insertSorted pc console.breakpoints },
      s!"Breakpoint set at {pc}\n")

def outputLine (console : Console) : String :=
  s!"Output: {Text.quote console.machine.core.outputText}\n"

/-- A command line as it is understood. A line is known by its first letter,
and its numbers are the words after the first. -/
inductive Command
  | quit
  | step (count : Int)
  | goOn
  | memory (address : Option Int) (count : Int)
  | toggle (pc : Int)
  | output
  | reset
  | usage (text : String)
  | help

/-- The integer at a place in a list of words, or the default if the list is
too short; none if the word is no integer. -/
def argument? {α : Type} (words : List Text) (place : Nat) (default : α)
    (wrap : Int → α) : Option α :=
  match words[place]? with
  | none => some default
  | some word =>
    match Literal.integer word with
    | .ok n => some (wrap n)
    | .error _ => none

def Command.ofLine (line : Text) : Command :=
  let words := Text.words line
  if Text.startsWith line 'q' then .quit
  else if Text.startsWith line 's' then
    match argument? words 1 1 id with
    | some count => .step count
    | none => .usage "Usage: s [count]\n"
  else if Text.startsWith line 'c' then .goOn
  else if Text.startsWith line 'm' then
    match argument? words 1 none some, argument? words 2 20 id with
    | some address, some count => .memory address count
    | _, _ => .usage "Usage: m [addr] [count]\n"
  else if Text.startsWith line 'b' then
    match argument? words 1 none some with
    | some (some pc) => .toggle pc
    | _ => .usage "Usage: b <pc>\n"
  else if Text.startsWith line 'o' then .output
  else if Text.startsWith line 'r' then .reset
  else .help

/-- What a command leads to: whether the console stays open, what it prints
and what it reports. -/
structure Outcome where
  console : Console
  stays : Bool
  printed : String
  notices : List Notice

def Outcome.ofPrint (console : Console) (printed : String) : Outcome :=
  { console, stays := true, printed, notices := [] }

/-- Carries out a command; there is no outcome if it never ends. -/
def perform (console : Console) : Command → Option Outcome
  | .quit => some { Outcome.ofPrint console "" with stays := false }
  | .step count =>
    some (.ofPrint { console with machine := (console.machine.batch count).1 } "")
  | .goOn =>
    console.goOn.map fun (console, hit) =>
      .ofPrint console ((hit.map breakpointLine).getD "")
  | .memory address count =>
    some (.ofPrint console
      (console.showMemory (address.getD console.machine.core.ptr) count))
  | .toggle pc =>
    let (console, line) := console.toggle pc
    some (.ofPrint console line)
  | .output => some (.ofPrint console console.outputLine)
  | .reset =>
    let console := console.reset
    some { Outcome.ofPrint console "Reset.\n" with notices := console.resetNotices }
  | .usage text => some (.ofPrint console text)
  | .help => some (.ofPrint console (help ++ "\n"))

/-- The command that a line stands for: the line without outer blanks, or the
last command if nothing is left. -/
def effective (console : Console) (line : Text) : Text :=
  let trimmed := Text.trim line
  if trimmed.isEmpty then console.last else trimmed

def execute (console : Console) (line : Text) : Option Outcome :=
  let line := console.effective line
  perform { console with last := line } (Command.ofLine line)

def greeting : String :=
  s!"Debugger started. {help}\n"

def prompt : String :=
  s!"{blue}(bf-dbg){plain} "

def farewell (console : Console) : String :=
  console.outputLine ++ "Execution finished.\n"

end TapeMachine.Console

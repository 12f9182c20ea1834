import TapeMachine.CommandLine.Environment
import TapeMachine.CommandLine.Report
import TapeMachine.Console

/-!
The program with the console: it shows the machine before every command and
ends at the end of its input or on request.
-/

namespace TapeMachine.CommandLine

def debugReporter (a : Arguments) : Reporter :=
  { style := .bySource, threshold := if a.verbose then .debug else .warning }

/-- A dialogue under way, with all that was written so far. -/
structure Dialogue where
  console : Console
  output : String
  errors : Text

namespace Dialogue

/-- Shows the machine and asks for a command. -/
def ask (d : Dialogue) : Dialogue :=
  { d with
    output := d.output ++
      d.console.stateView Console.defaultWindow Console.defaultContext ++ Console.prompt }

def begin (r : Reporter) (console : Console) : Dialogue :=
  ask
    { console
      output := Console.greeting
      errors := r.notices console.machine.loadNotices }

/-- Takes a line; tells whether to go on. None if the command never ends. -/
def answer (r : Reporter) (d : Dialogue) (line : Text) : Option (Dialogue × Bool) :=
  (d.console.execute line).map fun outcome =>
    ({ console := outcome.console
       output := d.output ++ outcome.printed
       errors := d.errors ++ r.notices outcome.notices }, outcome.stays)

/-- Answers lines until one ends the dialogue or none is left. -/
def answerAll (r : Reporter) : Dialogue → List Text → Option Dialogue
  | d, [] => some d
  | d, line :: rest =>
    match d.answer r line with
    | none => none
    | some (d, true) => answerAll r d.ask rest
    | some (d, false) => some d

def finish (d : Dialogue) : Report :=
  { status := .ok 0
    output := d.output ++ d.console.farewell
    errors := d.errors }

end Dialogue

/-- The lines of an input; one that a line feed ends has no empty line after
it. -/
def lines (t : Text) : List Text :=
  let pieces := Text.splitAt '\n' t
  if pieces.getLast? = some [] then pieces.dropLast else pieces

def cannotReadAsText (r : Reporter) (source : String) (path : Text) (fault : SystemFault) :
    Text :=
  r.line .error source
    (Text.ofString "Cannot read " ++ path ++ Text.ofString s!": {fault.message}")

/-- Opens the console on a source that was read. -/
def debugOpen (memory : Memory) (a : Arguments) (source : Except FileFault Text) :
    Except Report Dialogue :=
  let r := debugReporter a
  match source with
  | .error fault =>
    let line := cannotReadAsText r "debugger"
    .error (.ofFileFault line line fault)
  | .ok source =>
    match Console.open? (.text source) (.text a.input) a.tapeSize.toJson memory with
    | .error refusal => .error (.ofEscape (.refused refusal) [])
    | .ok console => .ok (.begin r console)

def debugMain (env : Environment) (pieces : List Text) (input : Text) : Option Report :=
  match parse Synopsis.debug.grammar pieces with
  | .error stop => some (.ofStop .debug stop)
  | .ok a =>
    match debugOpen env.memory a (env.read a.file) with
    | .error report => some report
    | .ok dialogue =>
      (Dialogue.answerAll (debugReporter a) dialogue (lines input)).map Dialogue.finish

end TapeMachine.CommandLine

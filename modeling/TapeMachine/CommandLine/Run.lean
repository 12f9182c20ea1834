import TapeMachine.CommandLine.Environment
import TapeMachine.CommandLine.Report
import TapeMachine.Transcript

/-!
The program that runs a source to its end: 0 for a halt, 2 where the limit
comes first, 1 where there is nothing to run. Output that cannot be written ends
it too, and is taken for a file that cannot be read.
-/

namespace TapeMachine.CommandLine

def runReporter (time : String) (a : Arguments) : Reporter :=
  { style := .timed time, threshold := if a.verbose then .debug else .warning }

/-- The input file to read, if one is named. -/
def Arguments.inputPath? (a : Arguments) : Option Text :=
  if a.inputFile.isEmpty then none else some a.inputFile

def Arguments.transcriptOptions (a : Arguments) : Transcript.Options :=
  { tapeSize := a.tapeSize.toJson
    strict := a.strict
    trace := a.trace
    maxSteps := (a.maxSteps.map Quantity.toJson).getD .null }

/-- What a run writes beside its output. -/
def begun (r : Reporter) (t : Transcript) : Text :=
  r.notices t.machine.loadNotices ++ Text.ofString t.traceText

/-- The report on a run that has come to its halt or to its limit. -/
def reportRun (r : Reporter) (t : Transcript) : Report :=
  let c := t.machine.core
  let output := t.outputText.display
  if c.halted then
    { status := .ok 0
      output
      errors := begun r t ++
        r.line .debug "run" (Text.ofString s!"Finished in {c.stepCount} steps") }
  else
    { status := .ok 2
      output
      errors := begun r t ++
        r.line .warning "run"
          (Text.ofString s!"Stopped after {c.stepCount} steps without halting (pc={c.pc})") }

/-- A fault of the system with the path that it is about, if it is about one. -/
def cannotRead (r : Reporter) (path : Option Text) : Text :=
  r.line .error "run" (Text.ofString "Cannot read " ++ path.getD (Text.ofString "None"))

/-- The report on a run that ends because something cannot be written. The fault
is about no path. What is said of it goes to the errors, whether or not they
still take it. -/
def reportCut (r : Reporter) (t : Transcript) : Report :=
  { status := .ok 1
    output := t.outputText.display
    errors := begun r t ++ cannotRead r none }

def reportEnd (r : Reporter) (outlets : Outlets) (t : Transcript) : Report :=
  if t.isCut outlets then reportCut r (t.delivered outlets) else reportRun r t

def reportFileFault (r : Reporter) : FileFault → Report :=
  .ofFileFault (fun path _ => cannotRead r (some path)) fun _ _ => cannotRead r none

/-- Runs a source that was read, with the input that was read; none if the run
never ends. A file that gives no text ends the program, the input file
first. -/
def runWith (time : String) (memory : Memory) (outlets : Outlets) (a : Arguments)
    (input source : Except FileFault Text) : Option Report :=
  let r := runReporter time a
  match input with
  | .error fault => some (reportFileFault r fault)
  | .ok input =>
    match source with
    | .error fault => some (reportFileFault r fault)
    | .ok source =>
      match Transcript.run (.text source) (.text input) a.transcriptOptions memory outlets with
      | .error (.unbalanced u) =>
        some (.ofStatus 1 (r.line .error "run" (Text.ofString u.message)))
      | .error (.refused refusal) => some (.ofEscape (.refused refusal) [])
      | .error (.limit machine refusal) =>
        some (.ofEscape (.refused refusal) (r.notices machine.loadNotices))
      | .ok transcript => transcript.map (reportEnd r outlets)

/-- The program in its surroundings, with streams that take any amount or only so
much. -/
def runMain (time : String) (env : Environment) (pieces : List Text) (outlets : Outlets := {}) :
    Option Report :=
  match parse Synopsis.run.grammar pieces with
  | .error stop => some (.ofStop .run stop)
  | .ok a =>
    let input :=
      match a.inputPath? with
      | none => .ok a.input
      | some path => env.read path
    runWith time env.memory outlets a input (env.read a.file)

end TapeMachine.CommandLine

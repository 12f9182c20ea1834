import TapeMachine.CommandLine.Debug
import TapeMachine.CommandLine.Run
import TapeMachine.CommandLine.Serve
import TapeMachine.CommandLine.Show
import TapeMachine.Json.Writer

/-!
The programs by name, over the files and streams of the system. The console
takes a command per line; the service takes a request per line, a method, a
target and a body parted by blanks, and answers each with a status and a body.
-/

namespace TapeMachine.CommandLine

def faultOf : IO.Error → SystemFault
  | .noFileOrDirectory .. => .notFound
  | .permissionDenied .. => .notPermitted
  | .inappropriateType _ code _ => if code = 20 then .notDirectory else .isDirectory
  | e => { number := 5, message := toString e }

/-- What the system makes of a path. -/
def openFile (path : Text) : IO (Except SystemFault (Except SystemFault (List UInt8))) := do
  try
    let bytes ← IO.FS.readBinFile path.display
    return .ok (.ok bytes.toList)
  catch e => return .error (faultOf e)

def readText (path : Text) : IO (Except FileFault Text) := do
  let opened ← openFile path
  return Opening.read (fun _ => opened) path

def conclude (report : Report) : IO UInt32 := do
  IO.print report.output
  (← IO.getStdout).flush
  IO.eprint report.errors.display
  match report.status with
  | .ok status => return status.toUInt32
  | .error escape =>
    IO.eprintln escape.message
    return 1

def neverEnds : IO UInt32 := do
  IO.eprintln "This run never ends."
  return 1

def runCommand (pieces : List Text) : IO UInt32 := do
  match parse Synopsis.run.grammar pieces with
  | .error stop => conclude (.ofStop .run stop)
  | .ok a =>
    let input ←
      match a.inputPath? with
      | none => pure (.ok a.input)
      | some path => readText path
    let source ← readText a.file
    let time ← IO.monoMsNow
    let run (outlets : Outlets) := runWith (toString time) .usual outlets a input source
    match run {} with
    | some report =>
      try conclude report
      catch _ => (run { output := some 0 }).elim neverEnds conclude
    | none => neverEnds

/-- Prints what a dialogue has written since the last time. -/
def flushDialogue (d : Dialogue) : IO Dialogue := do
  IO.print d.output
  IO.eprint d.errors.display
  (← IO.getStdout).flush
  return { d with output := "", errors := [] }

partial def converse (r : Reporter) (d : Dialogue) : IO UInt32 := do
  let d ← flushDialogue d
  let line ← (← IO.getStdin).getLine
  if line.isEmpty then conclude d.finish
  else
    match d.answer r (Text.ofString line) with
    | none => neverEnds
    | some (d, true) => converse r d.ask
    | some (d, false) => conclude d.finish

def debugCommand (pieces : List Text) : IO UInt32 := do
  match parse Synopsis.debug.grammar pieces with
  | .error stop => conclude (.ofStop .debug stop)
  | .ok a =>
    match debugOpen .usual a (← readText a.file) with
    | .error report => conclude report
    | .ok d => converse (debugReporter a) d

/-- A request on a line. -/
def requestOf (line : Text) : Service.Request :=
  let (method, rest) := Text.cut ' ' (Text.trim line)
  let (target, body) := Text.cut ' ' (rest.getD [])
  let bytes := body.map fun body => body.display.toUTF8.toList
  { method := if method = Text.ofString "GET" then .get else .post
    target := Text.ofBytes target.display.toUTF8.toList
    contentLength := bytes.map fun bytes => Text.ofString (toString bytes.length)
    body := bytes.getD [] }

partial def serveLines (r : Reporter) (s : Session) : IO UInt32 := do
  let line ← (← IO.getStdin).getLine
  if line.isEmpty then return 0
  let request := requestOf (Text.ofString line)
  let (s, answer, notices) := s.respond request
  IO.eprint (requestLines r request answer notices).display
  match answer with
  | .ok response => IO.println s!"{response.status} {response.body.write}"
  | .error fault => IO.println fault.message
  (← IO.getStdout).flush
  serveLines r s

def serveCommand (pieces : List Text) : IO UInt32 := do
  match parse Synopsis.serve.grammar pieces with
  | .error stop => conclude (.ofStop .serve stop)
  | .ok a =>
    match serveOpen a (← readText a.file) with
    | .error report => conclude report
    | .ok (s, report) =>
      IO.print report.output
      IO.eprint report.errors.display
      serveLines (serveReporter a) s

/-- Shows the panel that comes up as a line of text. -/
def showCommand (pieces : List Text) : IO UInt32 := do
  let source ←
    match pieces with
    | [] => pure none
    | path :: _ => pure (some (← readText path))
  match showOpen source with
  | .error report => conclude report
  | .ok panel =>
    IO.println panel.status.text
    return 0

end TapeMachine.CommandLine

open TapeMachine TapeMachine.CommandLine in
def main (args : List String) : IO UInt32 := do
  let pieces := args.tail.map Text.ofString
  match args.head? with
  | some "bf-run" => runCommand pieces
  | some "bf-debug" => debugCommand pieces
  | some "bf-serve" => serveCommand pieces
  | some "bf-gui" => showCommand pieces
  | _ =>
    IO.eprintln "usage: (bf-run | bf-debug | bf-serve | bf-gui) ..."
    return 2

import TapeMachine.CommandLine.File
import TapeMachine.CommandLine.Usage
import TapeMachine.Machine.Action

/-!
What a program leaves behind: its exit status and what it wrote to the two
standard streams, with reports about its work by level.
-/

namespace TapeMachine.CommandLine

inductive Level
  | debug
  | info
  | warning
  | error
  deriving DecidableEq

namespace Level

def name : Level → String
  | debug => "DEBUG"
  | info => "INFO"
  | warning => "WARNING"
  | error => "ERROR"

def rank : Level → Nat
  | debug => 0
  | info => 1
  | warning => 2
  | error => 3

end Level

/-- How the reports of a program are written: after the time, or with the part
of the program that they come from. -/
inductive ReportStyle
  | timed (time : String)
  | bySource

/-- Reports below the threshold are left out. -/
structure Reporter where
  style : ReportStyle
  threshold : Level

def Reporter.line (r : Reporter) (level : Level) (source : String) (message : Text) : Text :=
  if level.rank < r.threshold.rank then []
  else
    let head :=
      match r.style with
      | .timed time => s!"{time} - {level.name} - "
      | .bySource => s!"{level.name}:{source}:"
    Text.ofString head ++ message ++ Text.ofString "\n"

/-- The reports of a machine about itself. -/
def Reporter.notices (r : Reporter) (notices : List Notice) : Text :=
  notices.flatMap fun n => r.line .debug "machine" n.message

/-- What ends a program without an exit status. -/
inductive Escape
  | refused (r : Refusal)
  | undecodable (fault : Text.Utf8Fault)
  | nullInPath
  | unencodable (fault : PathFault)

def Escape.message : Escape → String
  | refused r => r.message
  | undecodable fault => fault.message
  | nullInPath => "embedded null byte"
  | unencodable fault => fault.message

structure Report where
  status : Except Escape Nat
  output : String
  errors : Text

namespace Report

def ofStatus (status : Nat) (errors : Text) : Report :=
  { status := .ok status, output := "", errors }

/-- The report on a program that got as far as to write `errors`. -/
def ofEscape (e : Escape) (errors : Text) : Report :=
  { status := .error e, output := "", errors }

/-- The report on a command line that gives no arguments. -/
def ofStop (s : Synopsis) : Stop → Report
  | .help => { status := .ok 0, output := s.usage ++ s.help, errors := [] }
  | .error message =>
    .ofStatus 2
      (Text.ofString (s.usage ++ s!"{s.name}: error: ") ++ message ++ Text.ofString "\n")

/-- The report on a file that gives no text. `closed` words the case that it
cannot be opened, and `unread` the case that it can, but not be read. -/
def ofFileFault (closed unread : Text → SystemFault → Text) : FileFault → Report
  | .closed path fault => .ofStatus 1 (closed path fault)
  | .unread path fault => .ofStatus 1 (unread path fault)
  | .nullInPath => .ofEscape .nullInPath []
  | .unencodable fault => .ofEscape (.unencodable fault) []
  | .undecodable fault => .ofEscape (.undecodable fault) []

end Report

end TapeMachine.CommandLine

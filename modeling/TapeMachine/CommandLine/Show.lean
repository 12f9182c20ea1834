import TapeMachine.CommandLine.Debug
import TapeMachine.Panel

/-!
The program with the panel. Its first argument, whatever it looks like, is the
file to put into the editor.
-/

namespace TapeMachine.CommandLine

def showReporter : Reporter :=
  { style := .bySource, threshold := .info }

/-- The panel to bring up. -/
def showOpen (source : Option (Except FileFault Text)) : Except Report Panel :=
  match source with
  | none => .ok (.make (Text.ofString Panel.helloWorld))
  | some (.ok source) => .ok (.make source)
  | some (.error fault) =>
    let line := cannotReadAsText showReporter "debugger_gui"
    .error (.ofFileFault line line fault)

def showMain (env : Environment) (pieces : List Text) : Except Report Panel :=
  showOpen (pieces.head?.map env.read)

end TapeMachine.CommandLine

import TapeMachine.CommandLine.Report
import TapeMachine.Service.Session

/-!
The program that offers a machine as a service: what it says at the start and
what it reports about every request.
-/

namespace TapeMachine.CommandLine

def serveReporter (a : Arguments) : Reporter :=
  { style := .bySource, threshold := if a.verbose then .debug else .info }

def clientAddress : String := "127.0.0.1"

/-- A fault of the system with the path that it is about, if it is about one. -/
def systemFaultLine (r : Reporter) (path : Option Text) (fault : SystemFault) : Text :=
  let about := path.elim "" fun path => s!": {Text.quote path}"
  r.line .error "debugger_server" (Text.ofString (fault.text ++ about))

/-- Opens the service on a source that was read, with the report so far. -/
def serveOpen (a : Arguments) (source : Except FileFault Text) (memory : Memory := .usual) :
    Except Report (Session × Report) :=
  let r := serveReporter a
  match source with
  | .error fault =>
    let closed (path : Text) := systemFaultLine r (some path)
    let unread (_ : Text) := systemFaultLine r none
    .error (.ofFileFault closed unread fault)
  | .ok source =>
    match Session.open? (.text source) (.text a.input) a.tapeSize.toJson memory with
    | .error refusal => .error (.ofEscape (.refused refusal) [])
    | .ok session =>
      let opened :=
        Text.ofString "Serving " ++ a.file ++
          Text.ofString s!" ({session.machine.core.program.length} ops)"
      .ok (session,
        { status := .ok 0
          output := s!"Open http://localhost:{a.port.text}/state?init to check the server\n"
          errors := r.notices session.machine.loadNotices ++
            r.line .info "debugger_server" opened })

/-- What is reported about a request. One without an answer goes without a
line of its own. -/
def requestLines (r : Reporter) (request : Service.Request)
    (answer : Except Service.Breakdown Service.Response) (notices : List Notice) : Text :=
  r.notices notices ++
    match answer with
    | .error _ => []
    | .ok response =>
      r.line .debug "debugger_server"
        (Text.ofString s!"{clientAddress} - \"{request.method.text} " ++ request.target ++
          Text.ofString s!" HTTP/1.1\" {response.status} -")

end TapeMachine.CommandLine

import TapeMachine.CommandLine.Path
import TapeMachine.Text.Utf8

/-!
Text files: why there is no text in one. Its name may be no path at all; the
system may not open it, or not read what it has opened; and its bytes may be no
text. What is opened and read is the system's matter and comes as a function.
-/

namespace TapeMachine.CommandLine

/-- Why a system has not done what it was asked, by number and in words. -/
structure SystemFault where
  number : Nat
  message : String

namespace SystemFault

def notFound : SystemFault :=
  { number := 2, message := "No such file or directory" }

def notPermitted : SystemFault :=
  { number := 13, message := "Permission denied" }

def notDirectory : SystemFault :=
  { number := 20, message := "Not a directory" }

def isDirectory : SystemFault :=
  { number := 21, message := "Is a directory" }

def nameTooLong : SystemFault :=
  { number := 36, message := "File name too long" }

def text (fault : SystemFault) : String :=
  s!"[Errno {fault.number}] {fault.message}"

end SystemFault

/-- What a system makes of a path: it opens the file there, and then gives its
bytes, or it fails in one or the other. -/
abbrev Opening := Text → Except SystemFault (Except SystemFault (List UInt8))

/-- Why there is no text in a file. -/
inductive FileFault
  | closed (path : Text) (fault : SystemFault)
  | unread (path : Text) (fault : SystemFault)
  | nullInPath
  | unencodable (fault : PathFault)
  | undecodable (fault : Text.Utf8Fault)

/-- The text of bytes read from a file. -/
def textOfBytes (bytes : List UInt8) : Except FileFault Text :=
  match Text.decodeUtf8 bytes with
  | .ok t => .ok (Text.unifyNewlines t)
  | .error fault => .error (.undecodable fault)

/-- The text of the file at a path. What is no path is not put to the system. -/
def Opening.read (system : Opening) (path : Text) : Except FileFault Text :=
  match pathFault? 0 path with
  | some fault => .error (.unencodable fault)
  | none =>
    if path.contains (.scalar '\x00') then .error .nullInPath
    else
      match system path with
      | .error fault => .error (.closed path fault)
      | .ok (.error fault) => .error (.unread path fault)
      | .ok (.ok bytes) => textOfBytes bytes

end TapeMachine.CommandLine

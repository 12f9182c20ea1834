import TapeMachine.CommandLine.File
import TapeMachine.Memory

/-!
What a program meets outside itself: the files that the system opens for it and
the memory that there is. One such place is a working directory of named files,
which lies among the directories that a system commonly has.
-/

namespace TapeMachine.CommandLine

structure Environment where
  system : Opening
  memory : Memory := .usual

def Environment.read (env : Environment) (path : Text) : Except FileFault Text :=
  env.system.read path

/-- Files by the names on the way to them. -/
abbrev Directory := List (List Name × List UInt8)

/-- Where a path has led to: into the working directory, or to a place outside
it, named from the root. -/
inductive Place
  | inside (names : List Name)
  | outside (names : List Name)
  | file (bytes : List UInt8)

namespace Directory

def nameLimit : Nat := 255

def pathLimit : Nat := 4095

/-- The directory with some files in it. Of several with one name the last stays. -/
def withFiles (files : List (Text × List UInt8)) : Directory :=
  files.reverse.map fun (path, bytes) =>
    ((pathNames path).filter fun name => name != selfName, bytes)

/-- The directory that the working directory lies in. -/
def parent : List Name := [.ofString "tmp"]

/-- The directories that every system has, from the root on. -/
def systemDirectories : List (List Name) :=
  [["bin"], ["boot"], ["dev"], ["etc"], ["home"], ["lib"], ["lib64"], ["media"], ["mnt"], ["opt"],
    ["proc"], ["root"], ["run"], ["sbin"], ["srv"], ["sys"], ["tmp"], ["usr"], ["var"],
    ["dev", "pts"], ["dev", "shm"], ["proc", "self"],
    ["usr", "bin"], ["usr", "include"], ["usr", "lib"], ["usr", "local"], ["usr", "sbin"],
    ["usr", "share"], ["usr", "src"],
    ["usr", "local", "bin"], ["usr", "local", "lib"], ["usr", "local", "share"],
    ["var", "cache"], ["var", "lib"], ["var", "log"], ["var", "tmp"]].map
    fun names => names.map Name.ofString

/-- The file that is always there and always empty. -/
def emptyFile : List Name :=
  ["dev", "null"].map Name.ofString

def inside (d : Directory) (names : List Name) : Except SystemFault Place :=
  match d.lookup names with
  | some bytes => .ok (.file bytes)
  | none =>
    if d.any fun (path, _) => names.isPrefixOf path then .ok (.inside names)
    else .error .notFound

def outside (names : List Name) : Except SystemFault Place :=
  if names = emptyFile then .ok (.file [])
  else if names.isEmpty || systemDirectories.contains names then .ok (.outside names)
  else .error .notFound

/-- Follows one name of a path. -/
def enter (d : Directory) (place : Place) (name : Name) : Except SystemFault Place :=
  match place with
  | .file _ => .error .notDirectory
  | .inside names =>
    if name = selfName then .ok place
    else if name = parentName then
      .ok (if names.isEmpty then .outside parent else .inside names.dropLast)
    else if nameLimit < name.length then .error .nameTooLong
    else d.inside (names ++ [name])
  | .outside names =>
    if name = selfName then .ok place
    else if name = parentName then .ok (.outside names.dropLast)
    else if nameLimit < name.length then .error .nameTooLong
    else outside (names ++ [name])

def follow (d : Directory) : Place → List Name → Except SystemFault Place
  | place, [] => .ok place
  | place, name :: rest =>
    match d.enter place name with
    | .error reason => .error reason
    | .ok next => d.follow next rest

/-- The bytes of the file that a path leads to. A slash at the end asks for a
directory. -/
def find (d : Directory) (path : Text) : Except SystemFault (List UInt8) :=
  if path.isEmpty then .error .notFound
  else if pathLimit < (pathBytes path).length then .error .nameTooLong
  else
    let start := if Text.startsWith path '/' then Place.outside [] else .inside []
    match d.follow start (pathNames path) with
    | .error reason => .error reason
    | .ok (.file bytes) =>
      if path.getLast? = some (.scalar '/') then .error .notDirectory else .ok bytes
    | .ok _ => .error .isDirectory

/-- The surroundings of a program in a working directory with some files. What is
opened there can be read. -/
def ofFiles (files : List (Text × List UInt8)) : Environment where
  system path := ((withFiles files).find path).map .ok

theorem system_of_find {files : List (Text × List UInt8)} {path : Text} {bytes : List UInt8}
    (h : (withFiles files).find path = .ok bytes) :
    (ofFiles files).system path = .ok (.ok bytes) := by
  simp only [ofFiles, h]
  rfl

end Directory

end TapeMachine.CommandLine

import FieldPatch.World.Files

/-! The surroundings of a computation: files, a working directory, the environment, and what
programs do when they are run. -/

namespace FieldPatch

/-- A program about to run. -/
structure Invocation where
  /-- The path by which it was called, and what it consists of. -/
  path : String
  program : List UInt8
  arguments : List String
  environment : Entries String
  directory : List String
  input : List UInt8

/-- What a program leaves behind. -/
structure Ending where
  status : ExitStatus
  output : List UInt8
  errors : List UInt8
  deriving DecidableEq

/-- The programs that scripts may name in their first line, where there are no others. -/
def Invocation.shells : List String :=
  ["/bin/sh", "/usr/bin/sh", "/bin/bash", "/usr/bin/bash", "/usr/bin/env"]

/-- The program that the first line of a script names. -/
def Invocation.interpreter? (i : Invocation) : Option String :=
  match (Utf8.lossy i.program).toList with
  | '#' :: '!' :: cs =>
    let line := (cs.takeWhile (· ≠ '\n')).dropWhile fun c => c == ' ' || c == '\t'
    some (String.ofList (line.takeWhile fun c => c != ' ' && c != '\t'))
  | _ => none

/-- Whether a system loads a program that has shells and nothing else to load one with. -/
def Invocation.loadedByShell (i : Invocation) : Except SystemFault Unit :=
  match i.interpreter? with
  | none => .error .notExecutable
  | some name => if shells.contains name then .ok () else .error .noSuchFile

structure World where
  files : Files
  directory : List String
  environment : Entries String
  /-- Whether the system loads an executable file that is called like this, or why not. -/
  load : Invocation → Except SystemFault Unit := Invocation.loadedByShell
  perform : Invocation → Ending

namespace World

def entryAt (w : World) (path : String) : Except SystemFault Entry := do
  let names ← w.files.locate w.directory path
  match w.files.entry? names with
  | some e => return e
  | none => throw .noSuchFile

/-- Whether there is a regular file at a path. -/
def hasFile (w : World) (path : String) : Bool :=
  match w.entryAt path with
  | .ok (.file ..) => true
  | _ => false

def readBytes (w : World) (path : String) : Except SystemFault (List UInt8) := do
  match ← w.entryAt path with
  | .file content _ => return content
  | .directory => throw .isADirectory

def readText (w : World) (path : String) : Except SystemFault String := do
  match Utf8.decode (← w.readBytes path) with
  | .ok text => return text
  | .error _ => throw .invalidData

/-- The path of the working directory. -/
def directoryPath (w : World) : String := "/" ++ "/".intercalate w.directory

def hasNul (text : String) : Bool := text.toList.contains '\x00'

/-- What no program can be given. -/
def refuses (arguments : List String) (settings : Entries String) (directory : String) : Bool :=
  arguments.any hasNul || settings.any (fun (k, v) => hasNul k || hasNul v) || hasNul directory

/-- The environment of a program: that of the process, with some settings of its own. -/
def environmentWith (w : World) (settings : Entries String) : Entries String :=
  settings.foldl (fun es (k, v) => Entries.put k v es) w.environment

/-- The place of a directory to run in. -/
def enter (w : World) (directory : String) : Except SystemFault (List String) := do
  let home ← w.files.locate w.directory directory
  match w.files.entry? home with
  | some .directory => return home
  | _ => throw .notADirectory

/-- The directories of a search path, between colons. -/
def directoriesOf (searchPath : String) : List String :=
  let step (c : Char) : List (List Char) → List (List Char)
    | [] => [[c]]
    | d :: ds => if c = ':' then [] :: d :: ds else (c :: d) :: ds
  (searchPath.toList.foldr step [[]]).map String.ofList

/-- The directories in which a program is looked for. One without a name is the directory that it
runs in. -/
def searched (environment : Entries String) : List String :=
  directoriesOf ((Entries.get? "PATH" environment).getD "/bin:/usr/bin")

/-- The paths under which a program is looked for. One with a slash is the path of the program
itself. -/
def programPaths (path : String) (environment : Entries String) : List String :=
  if Path.hasSlash path || path.isEmpty then [path]
  else (searched environment).map fun d => if d.isEmpty then path else d ++ "/" ++ path

/-- The program at a place, if it may be run. -/
def programAt (w : World) (names : List String) : Except SystemFault (List UInt8) :=
  match w.files.entry? names with
  | some (.file content true) => .ok content
  | some _ => .error .permissionDenied
  | none => .error .noSuchFile

/-- The call of the program at a path, in a directory from which a relative path starts. -/
def call (w : World) (arguments : List String) (environment : Entries String) (home : List String)
    (input path : String) : Except SystemFault Invocation := do
  let program ← w.programAt (← w.files.locate home path)
  let i : Invocation :=
    { path, program, arguments, environment, directory := home, input := Utf8.encode input }
  w.load i
  return i

/-- Faults for which a program is looked for elsewhere. -/
def passesOver (fault : SystemFault) : Bool :=
  fault = .noSuchFile || fault = .notADirectory || fault = .permissionDenied

/-- What the first path gives that is not passed over. Behind the last one the fault is that of the
last path, unless permission was denied at some. -/
def firstOf {α : Type} (f : String → Except SystemFault α) (fault : SystemFault) :
    List String → Except SystemFault α
  | [] => .error fault
  | path :: more =>
    match f path with
    | .ok a => .ok a
    | .error new =>
      if !passesOver new then .error new
      else firstOf f (if fault = .permissionDenied then fault else new) more

/-- Runs a program in a directory, with some settings in its environment. -/
def run (w : World) (path : String) (arguments : List String) (settings : Entries String)
    (directory : String) (input : String) : Except SystemFault Ending := do
  if refuses arguments settings directory then throw .nulInArgument
  let home ← w.enter directory
  let environment := w.environmentWith settings
  let i ← firstOf (w.call arguments environment home input) .noSuchFile
    (programPaths path environment)
  return w.perform i

end World

end FieldPatch

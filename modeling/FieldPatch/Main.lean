import FieldPatch.Request.Outcome
import FieldPatch.Shell.Run

/-! The program on the files below the working directory and those that its arguments name. -/

namespace FieldPatch

/-- The names on the way to an absolute path. -/
def namesOf (path : String) : List String :=
  (Path.split path.toList).filterMap fun s => if s.isEmpty then none else some (String.ofList s)

/-- A file that starts like a script counts as a program. -/
def fileEntry (content : List UInt8) : Entry := .file content ([0x23, 0x21].isPrefixOf content)

/-- Reads what is at a place of a directory, and below it. -/
partial def readEntry (e : IO.FS.DirEntry) : IO Files := do
  let names := namesOf (← IO.FS.realPath e.path).toString
  if ← e.path.isDir then
    let below ← (← e.path.readDir).toList.mapM readEntry
    return (names, .directory) :: below.flatten
  else
    try
      let content ← IO.FS.readBinFile e.path
      return [(names, fileEntry content.toList)]
    catch _ => return []

/-- Reads what a path leads to, if it leads anywhere. -/
def readPath (path : String) : IO Files := do
  try
    readEntry { root := ".", fileName := path }
  catch _ => return []

/-- The pairs of names and values between zero bytes. -/
def environmentOf (text : String) : Entries String :=
  Entries.ofPairs ((text.splitOn "\x00").filterMap fun pair =>
    match pair.splitOn "=" with
    | name :: value => if value.isEmpty then none else some (name, "=".intercalate value)
    | [] => none)

def readEnvironment : IO (Entries String) := do
  try
    return environmentOf (Utf8.lossy (← IO.FS.readBinFile "/proc/self/environ").toList)
  catch _ => return []

def readWorld (arguments : List String) : IO World := do
  let directory := (← IO.currentDir).toString
  let files := (← (directory :: arguments).mapM readPath).flatten
  return {
    files
    directory := namesOf directory
    environment := ← readEnvironment
    perform := Shell.run files }

/-- Writes the files that are not what they were. -/
def writeChanges (before after : Files) : IO Unit := do
  for (names, e) in after do
    if before.lookup names ≠ some e then
      if let .file content _ := e then
        IO.FS.writeBinFile ("/" ++ "/".intercalate names) (ByteArray.mk content.toArray)

end FieldPatch

def main (arguments : List String) : IO UInt32 := do
  let w ← FieldPatch.readWorld arguments
  let o := FieldPatch.runCommand w arguments
  FieldPatch.writeChanges w.files o.files
  (← IO.getStdout).putStr o.output
  (← IO.getStderr).putStr o.errors
  return o.code.toUInt32

import FieldPatch.Error
import FieldPatch.Path

/-! Files by the names on the way to them from the root. A directory is there as soon as
something is in it. -/

namespace FieldPatch

inductive Entry where
  | file (content : List UInt8) (executable : Bool)
  | directory
  deriving DecidableEq

abbrev Files := List (List String × Entry)

namespace Files

def entry? (files : Files) (names : List String) : Option Entry :=
  match files.lookup names with
  | some e => some e
  | none => if names.isEmpty || files.any (names.isPrefixOf ·.1) then some .directory else none

/-- Gives the file at a place new content. -/
def write (files : Files) (names : List String) (content : List UInt8) : Files :=
  files.map fun (place, e) => if place = names then (place, .file content false) else (place, e)

/-- Follows the stretches of a path. Each of them, a dot too, needs a directory to start
from. -/
def follow (files : Files) : List String → List (List Char) → Except SystemFault (List String)
  | names, [] => .ok names
  | names, s :: more =>
    match files.entry? names with
    | none => .error .noSuchFile
    | some (.file ..) => .error .notADirectory
    | some .directory =>
      if s == [] || s == ['.'] then follow files names more
      else if s == ['.', '.'] then follow files names.dropLast more
      else
        let next := names ++ [String.ofList s]
        if (files.entry? next).isNone then .error .noSuchFile else follow files next more

/-- The place that a path names, seen from a directory. -/
def locate (files : Files) (directory : List String) (path : String) :
    Except SystemFault (List String) :=
  if path.isEmpty then .error .noSuchFile
  else if Path.isAbsolute path then files.follow [] (Path.split path.toList)
  else files.follow directory (Path.split path.toList)

end Files

end FieldPatch

/-! Paths as text, and the parts between their slashes. -/

namespace FieldPatch.Path

inductive Part where
  | root
  /-- A dot at the start of the path; others do not count. -/
  | here
  | up
  | name (s : String)
  deriving DecidableEq

/-- The stretches between slashes, empty ones included. -/
def split : List Char → List (List Char)
  | [] => [[]]
  | c :: cs =>
    if c == '/' then [] :: split cs
    else match split cs with
      | [] => [[c]]
      | s :: more => (c :: s) :: more

/-- The part that a stretch stands for behind the start of a path. -/
def part? (stretch : List Char) : Option Part :=
  if stretch == [] || stretch == ['.'] then none
  else if stretch == ['.', '.'] then some .up
  else some (.name (String.ofList stretch))

def parts (path : String) : List Part :=
  match path.toList with
  | '/' :: cs => .root :: (split cs).filterMap part?
  | cs =>
    match split cs with
    | ['.'] :: more => .here :: more.filterMap part?
    | stretches => stretches.filterMap part?

def isAbsolute (path : String) : Bool := path.startsWith "/"

def hasSlash (path : String) : Bool := path.toList.contains '/'

/-- The last part of a path, if it is a name. -/
def lastName? : List Part → Option String
  | [] => none
  | [.name s] => some s
  | [_] => none
  | _ :: p :: ps => lastName? (p :: ps)

def fileName? (path : String) : Option String := lastName? (parts path)

/-- The name of the directory that holds the file. -/
def directoryName? (path : String) : Option String := lastName? (parts path).dropLast

/-- What follows the last dot of the file name, if something stands before it. -/
def extension? (path : String) : Option String :=
  match fileName? path with
  | none => none
  | some name =>
    let behind := name.toList.reverse.takeWhile (· != '.')
    let before := name.toList.reverse.drop (behind.length + 1)
    if before.isEmpty then none else some (String.ofList behind.reverse)

/-- A path below a directory. An absolute path stays what it is. -/
def join (directory path : String) : String :=
  if isAbsolute path || directory.isEmpty then path
  else if directory.endsWith "/" then directory ++ path
  else directory ++ "/" ++ path

/-- Whether a path can only lead further down. -/
def staysBelow (path : String) : Bool :=
  (parts path).all fun p => p != .root && p != .up

end FieldPatch.Path

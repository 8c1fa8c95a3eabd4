import FieldPatch.Json.Reader
import FieldPatch.Json.Writer
import FieldPatch.Path
import FieldPatch.Toml.Reader
import FieldPatch.Toml.Writer
import FieldPatch.Yaml.Reader
import FieldPatch.Yaml.Writer

/-! Documents in their formats. Only YAML text holds more than one. -/

namespace FieldPatch

namespace Format

def ofName (name : String) : Except Error Format :=
  match ofSpelling? name with
  | some f => .ok f
  | none => .error (.unsupportedFormat (lowerAscii name))

/-- The format that the extension of a path says. -/
def ofPath (path : String) : Except Error Format :=
  match Path.extension? path with
  | none => .error .noExtension
  | some extension =>
    match ofSpelling? extension with
    | some f => .ok f
    | none => .error (.unknownExtension (lowerAscii extension))

/-- The tree of a text that is one document. -/
def read (f : Format) (text : String) : Except Error Tree :=
  match f with
  | .yaml => Yaml.read text
  | .toml => Toml.read text
  | .json =>
    match Json.read? text with
    | some t => .ok t
    | none => .error (.document .malformed)

/-- The trees of all documents of a text. -/
def readAll (f : Format) (text : String) : Except Error (List Tree) :=
  match f with
  | .yaml => Yaml.readAll text
  | f => do return [← f.read text]

def write (f : Format) (t : Tree) : Except Error String :=
  match f with
  | .yaml => .ok (Yaml.render t)
  | .toml => Toml.render t
  | .json => .ok (Json.render t)

def endLine (text : String) : String := if text.endsWith "\n" then text else text ++ "\n"

/-- Documents behind the first one, each with a line in front that separates it. -/
def writeMore (f : Format) : List Tree → Except Error String
  | [] => .ok ""
  | t :: ts =>
    if f = .yaml then do return "---\n" ++ endLine (← f.write t) ++ (← writeMore f ts)
    else .error (.document (.oneDocumentOnly f))

def writeAll (f : Format) : List Tree → Except Error String
  | [] => .ok ""
  | t :: ts => do return endLine (← f.write t) ++ (← writeMore f ts)

end Format

end FieldPatch

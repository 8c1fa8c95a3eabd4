import FieldPatch.Config.Source
import FieldPatch.Document
import FieldPatch.Request.Report
import FieldPatch.Source.Context
import FieldPatch.Source.Validity
import FieldPatch.World.Basic

/-! What a request works on, read from files. -/

namespace FieldPatch

namespace Request

def noDocuments (file : String) : Report := ⟨file ++ " contains no documents", []⟩

/-- The text of a file. -/
def readFile (w : World) (file : String) : Except Report String :=
  (w.readText file).mapError fun fault => .within ("reading " ++ file) (.ofFault fault)

def readConfig {α : Type} (w : World) (decode : Config.Decoder α) (file : String) :
    Except Report α := do
  let text ← readFile w file
  match Config.read decode text with
  | some x => return x
  | none => throw ⟨"parsing " ++ file, ["not the configuration that is expected"]⟩

def readDocuments (w : World) (file : String) (format : Option String) :
    Except Report (List Tree × Format) := do
  let f ← (match format with
    | some name => Format.ofName name
    | none => Format.ofPath file).mapError .ofError
  let text ← readFile w file
  let docs ← (f.readAll text).mapError fun e => .within ("parsing " ++ file) (.ofError e)
  return (docs, f)

/-- Checks functions, from the first to the last. -/
def validateAll : List Function → Except Report Unit
  | [] => .ok ()
  | f :: fs => do
    f.validate.mapError fun e => .within ("invalid function " ++ quoted f.name) (.ofError e)
    validateAll fs

def rootContext (w : World) (home : Option String) (functions : List Function) :
    Except Report Context := do
  validateAll functions
  return { Context.root (home.getD w.directoryPath) with functions }

end Request

end FieldPatch

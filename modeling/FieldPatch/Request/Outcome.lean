import FieldPatch.Request.Arguments
import FieldPatch.Request.Reading
import FieldPatch.Selector.Stream
import FieldPatch.Source.Revision

/-! The program: what a request does, one thing after the other, and what there is to see of it
in the end. A file is written last, when nothing else is left that could fail. -/

namespace FieldPatch

/-- How things stand in the course of a run. -/
structure Progress where
  world : World
  output : String
  errors : String

/-- Something to do, which a report may cut short. What was done until then stays done. -/
abbrev Program := EStateM Report Progress

namespace Program

/-- What the files and the rest of the world give, as they are now. -/
def ask {α : Type} (f : World → Except Report α) : Program α := fun p =>
  match f p.world with
  | .ok a => .ok a p
  | .error r => .error r p

def print (text : String) : Program Unit :=
  modify fun p => { p with output := p.output ++ text }

def note (text : String) : Program Unit :=
  modify fun p => { p with errors := p.errors ++ text }

/-- Gives a file another content. -/
def replace (file text : String) : Program Unit := do
  let names ← ask fun w => (w.files.locate w.directory file).mapError fun fault =>
    .within "creating temporary file" (.ofFault fault)
  modify fun p =>
    { p with world := { p.world with files := p.world.files.write names (Utf8.encode text) } }

end Program

structure Outcome where
  code : Nat
  output : String
  errors : String
  files : Files

/-- Documents of a file as they are to be written. -/
structure Edited where
  file : String
  format : Format
  documents : List Tree
  changed : Bool
  /-- What is said about them. -/
  note : String

/-- A run from its start. Where it is cut short the report stands behind what was noted. -/
def Program.outcome (w : World) (p : Program Unit) : Outcome :=
  match p.run ⟨w, "", ""⟩ with
  | .ok () s => ⟨0, s.output, s.errors, s.world.files⟩
  | .error r s => ⟨1, s.output, s.errors ++ r.render, s.world.files⟩

namespace Request

def ofStreamFault (file selector : String) : Selector.StreamFault → Report
  | .noDocuments => noDocuments file
  | .unresolved e => .within (selector ++ " in " ++ file) (.ofError e)
  | .failed e => .ofError e

/-- The text of a node: of a scalar as it is, of anything else as a document. -/
def nodeText (f : Format) (node : Tree) : Except Error String :=
  match node.scalarText with
  | some text => .ok text
  | none => f.write node

/-- The value at a selector, in the first document that has one. -/
def selected (w : World) (file selector : String) (format : Option String) : Except Report String := do
  let (docs, f) ← readDocuments w file format
  let e ← (Selector.parse selector).mapError .ofError
  let node ← (Selector.findFirst e docs).mapError (ofStreamFault file selector)
  return Format.endLine (← (nodeText f node).mapError .ofError)

/-- The documents with a value written at a selector. -/
def overwritten (w : World) (file selector value : String) (format : Option String) :
    Except Report Edited := do
  let (docs, f) ← readDocuments w file format
  let e ← (Selector.parse selector).mapError .ofError
  let (documents, changed) ← (Selector.setAll value e docs).mapError (ofStreamFault file selector)
  return { file, format := f, documents, changed, note := if changed then "" else file ++ ": unchanged\n" }

/-- What a configured source comes to. -/
def computed (w : World) (config : String) (document home : Option String) : Except Report String := do
  let c ← readConfig w Config.evaluation config
  let ctx ← rootContext w home c.functions
  let ctx ← match document with
    | none => pure { ctx with file := config }
    | some file => do
      match ← readDocuments w file none with
      | ([], _) => throw (noDocuments file)
      | (first :: _, _) => pure { ctx with file, document := some first }
  let text ← (c.source.evaluate w ctx).mapError fun e => .within ("evaluating " ++ config) (.ofError e)
  return text ++ "\n"

/-- The report on the change that failed as the last of the steps. -/
def ofFailedChange (file : String) (orders : List Order) (r : Revision) (e : Error) : Report :=
  let index := r.steps.length - 1
  let key := (orders[index]?.map Order.key).getD ""
  .within ("change " ++ toString index ++ " (" ++ key ++ ") on " ++ file) (.ofError e)

/-- The documents with configured changes carried out. -/
def revised (w : World) (config file : String) (tag home : Option String) : Except Report Edited := do
  let c ← readConfig w Config.revision config
  let ctx ← rootContext w home c.functions
  let (docs, f) ← readDocuments w file none
  let r := revise w { ctx with file } tag file c.orders docs
  match r.failure with
  | some e => throw (ofFailedChange file c.orders r e)
  | none =>
    return {
      file
      format := f
      documents := r.documents
      changed := r.changes ≠ 0
      note := file ++ ": " ++ toString r.changes ++ " value(s) changed\n" }

/-- Prints a text once there is one. -/
def display (text : World → Except Report String) : Program Unit := do
  Program.print (← Program.ask text)

/-- Writes documents, to the file that they come from or to the output. -/
def deliver (e : Edited) (inPlace : Bool) : Program Unit := do
  let text ← Program.ask fun _ => (e.format.writeAll e.documents).mapError .ofError
  if !inPlace then Program.print text
  else if e.changed then Program.replace e.file text

def edit (prepare : World → Except Report Edited) (inPlace : Bool) : Program Unit := do
  let e ← Program.ask prepare
  Program.note e.note
  deliver e inPlace

def program : Request → Program Unit
  | .get file selector format => display fun w => selected w file selector format
  | .set file selector value format inPlace =>
    edit (fun w => overwritten w file selector value format) inPlace
  | .eval config document home => display fun w => computed w config document home
  | .apply config file tag inPlace home => edit (fun w => revised w config file tag home) inPlace

def outcome (w : World) (r : Request) : Outcome := r.program.outcome w

end Request

namespace Refusal

def usage : String := "
Commands:
  get <FILE> <SELECTOR> [-p FORMAT]
  set <FILE> <SELECTOR> <VALUE> [-p FORMAT] [-i]
  eval <CONFIG> [--document FILE] [--cloud-home DIR]
  apply <CONFIG> <FILE> [--tag TAG] [-i] [--cloud-home DIR]
"

def outcome (w : World) : Refusal → Outcome
  | .misuse => ⟨2, "", usage, w.files⟩
  | .help => ⟨0, usage, "", w.files⟩
  | .version => ⟨0, "genifest 0.1.0\n", "", w.files⟩

end Refusal

/-- The whole program, from its arguments on. -/
def runCommand (w : World) (arguments : List String) : Outcome :=
  match Request.ofArguments arguments with
  | .ok r => r.outcome w
  | .error r => r.outcome w

end FieldPatch

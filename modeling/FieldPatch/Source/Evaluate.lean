import FieldPatch.Document
import FieldPatch.Source.Accepts
import FieldPatch.Source.Depth
import FieldPatch.Source.Validity
import FieldPatch.Text.Template
import FieldPatch.World.Basic

/-! The text that a source comes to. One layer of evaluation is written in terms of the next
one, to a given depth. -/

namespace FieldPatch

/-- A result, or none if the depth does not suffice. -/
abbrev Evaluation := ExceptT Error Option

def Evaluation.of {α : Type} (r : Except Error α) : Evaluation α := ExceptT.mk (some r)

/-- What the layers below do. -/
abbrev Evaluator := Context → Source → Evaluation String

/-- Named sources, one after the other. -/
def evaluateAll (evaluate : Source → Evaluation String) :
    List (String × Source) → Evaluation (List (String × String))
  | [] => return []
  | (name, s) :: more => do return (name, ← evaluate s) :: (← evaluateAll evaluate more)

/-- Writes the value of a source at the place of a selector, in a document that the filter
accepts. Says whether the document changed. -/
def changeWith (evaluate : Evaluator) (ctx : Context) (filter : Option DocumentFilter) (key : String)
    (s : Source) (t : Tree) : Evaluation (Tree × Bool) := do
  let accepted ← match filter with
    | some f => Evaluation.of (f.accepts t)
    | none => pure true
  if accepted then
    let e ← Evaluation.of (Selector.parse key)
    let text ← evaluate { ctx with document := some t } s
    Evaluation.of (Selector.set text e t)
  else return (t, false)

/-- A change to each of some documents, and whether any of them changed. -/
def changeEach (change : Tree → Evaluation (Tree × Bool)) :
    List Tree → Evaluation (List Tree × List Bool)
  | [] => return ([], [])
  | t :: ts => do
    let (t', changed) ← change t
    let (ts', more) ← changeEach change ts
    return (t' :: ts', changed :: more)

def callWith (evaluate : Evaluator) (ctx : Context) (name : String)
    (arguments : List (String × Source)) : Evaluation String := do
  match ctx.function? name with
  | none => throw (.notFound (.function name))
  | some f =>
    let supplied := Entries.ofPairs (← evaluateAll (evaluate ctx) arguments)
    let bindings ← Evaluation.of (f.bind supplied f.parameters)
    evaluate { ctx with bindings } f.body

/-- The steps of a pipeline behind one that came to `last`. -/
def pipelineWith (evaluate : Evaluator) (ctx : Context) (last : String) :
    List (Source × Option String) → Evaluation String
  | [] => return last
  | (s, output) :: more => do
    let text ← evaluate ctx s
    let scope := match output with
      | some name => if name.isEmpty then ctx else ctx.withVariable name text
      | none => ctx
    pipelineWith evaluate scope text more

/-- The script of a name in the first root that has it. -/
def findScript (w : World) (ctx : Context) (command : String) : Except Error String :=
  match (ctx.scriptRoots.map fun root => Path.join root command).find? w.hasFile with
  | some path => .ok path
  | none => .error (.notFound (.script command ctx.scriptRoots))

/-- Text without the white space at its two ends. -/
def trimBlanks (cs : List Char) : List Char :=
  ((cs.dropWhile isBlank).reverse.dropWhile isBlank).reverse

/-- What a script prints, as text without the white space around it. -/
def printed (bytes : List UInt8) : String :=
  String.ofList (trimBlanks (Utf8.lossy bytes).toList)

/-- The output of a script that ended well. -/
def outputOf (command : String) (e : Ending) : Except Error String :=
  if e.status = .exited 0 then .ok (printed e.output)
  else .error (.execution command e.status (printed e.output) (printed e.errors))

def scriptWith (evaluate : Evaluator) (w : World) (ctx : Context) (command : String)
    (arguments environment : List (String × Source)) (input : Option Source) :
    Evaluation String := do
  let path ← Evaluation.of (findScript w ctx command)
  let arguments ← evaluateAll (evaluate ctx) arguments
  let environment ← evaluateAll (evaluate ctx) environment
  let input ← match input with
    | some s => evaluate ctx s
    | none => pure ""
  match w.run path (arguments.map Prod.snd) environment ctx.home input with
  | .ok e => Evaluation.of (outputOf command e)
  | .error fault => throw (.system fault)

/-- The directory of included files: the one given, or that of the current file. -/
def appName (ctx : Context) (app : Option String) : String :=
  match app.filter (· ≠ "") with
  | some name => name
  | none => (Path.directoryName? ctx.file).getD ""

/-- The paths where an included file may be, in the order of the roots. -/
def candidates (ctx : Context) (app source : String) : List String :=
  ctx.fileRoots.map fun root =>
    Path.join (if app.isEmpty then root else Path.join root app) source

/-- The path of an included file, which must lie below one of the roots. -/
def findFile (w : World) (ctx : Context) (app source : String) : Except Error String :=
  if !Path.staysBelow app then .error (.evaluation (.outsideRoot "app" app))
  else if !Path.staysBelow source then .error (.evaluation (.outsideRoot "source" source))
  else match (candidates ctx app source).find? w.hasFile with
    | some path => .ok path
    | none => .error (.notFound (.file source app))

/-- Edits, one after the other, each on all documents. -/
def editAll (evaluate : Evaluator) (ctx : Context) :
    List (Edit Source) → List Tree → Evaluation (List Tree)
  | [], docs => return docs
  | e :: es, docs => do
    let (docs', _) ← changeEach (changeWith evaluate ctx e.documents e.key e.source) docs
    editAll evaluate ctx es docs'

/-- The text of an included file, as it is or with edits. -/
def includeWith (evaluate : Evaluator) (w : World) (ctx : Context) (app : Option String)
    (source : String) (edits : List (Edit Source)) : Evaluation String := do
  let path ← Evaluation.of (findFile w ctx (appName ctx app) source)
  let bytes ← Evaluation.of ((w.readBytes path).mapError .system)
  match edits with
  | [] => return Utf8.lossy bytes
  | first :: _ =>
    let text ← Evaluation.of ((Utf8.decode bytes).mapError fun f => .evaluation (.notText path f))
    let format ← match first.format with
      | some f => pure f
      | none => Evaluation.of (Format.ofPath path)
    let docs ← Evaluation.of (format.readAll text)
    let docs ← editAll evaluate { ctx with file := path } edits docs
    Evaluation.of (format.writeAll docs)

/-- The scalar that a selector leads to in the current document. -/
def documentText (ctx : Context) (selector : String) (fileSelector : Option String) :
    Except Error String := do
  if fileSelector.any (· ≠ "") then throw (.evaluation .fileSelectorUnsupported)
  match ctx.document with
  | none => throw (.evaluation .noDocument)
  | some t =>
    let node ← Selector.query t selector
    match node.scalarText with
    | some text => return text
    | none => throw (.typeMismatch "scalar" node.kind)

/-- An environment variable; one that is empty is as good as none. -/
def environmentText (w : World) (name : String) (default : Option String) : Except Error String :=
  match (Entries.get? name w.environment).filter (· ≠ "") <|> default.filter (· ≠ "") with
  | some text => .ok text
  | none => .error (.notFound (.environment name))

namespace Source

/-- One layer of evaluation. -/
def evaluateWith (evaluate : Evaluator) (w : World) (ctx : Context) : Source → Evaluation String
  | .literal text => return text
  | .variable name =>
    match ctx.binding? name with
    | some text => return text
    | none => throw (.notFound (.variable name))
  | .template text bindings => do
    return Template.render text (Entries.ofPairs (← evaluateAll (evaluate ctx) bindings))
  | .call name arguments => callWith evaluate ctx name arguments
  | .script command arguments settings input =>
    scriptWith evaluate w ctx command arguments settings input
  | .file app source edits => includeWith evaluate w ctx app source edits
  | .pipeline [] => throw (.evaluation .emptyPipeline)
  | .pipeline steps => pipelineWith evaluate ctx "" steps
  | .document selector fileSelector => Evaluation.of (documentText ctx selector fileSelector)
  | .environment name default => Evaluation.of (environmentText w name default)
  | .unset => throw (.evaluation .noSource)

/-- The value of a source if it takes no more than so many layers. -/
def evaluateAt (w : World) : Nat → Evaluator
  | 0, _, _ => ExceptT.mk none
  | depth + 1, ctx, s => evaluateWith (evaluateAt w depth) w ctx s

def settle {α : Type} (e : Evaluation α) : Except Error α :=
  match e.run with
  | some r => r
  | none => .error (.evaluation .nestedTooDeeply)

/-- How many times deeper functions that call themselves may go than others could. -/
def patience : Nat := 1000

/-- Depth enough for all but functions that call themselves without end. -/
def depthLimit (s : Source) (ctx : Context) : Nat := patience * s.depthIn ctx

def evaluate (w : World) (ctx : Context) (s : Source) : Except Error String :=
  settle (evaluateAt w (s.depthLimit ctx) ctx s)

/-- Changes a document by the value of a source. -/
def change (w : World) (ctx : Context) (filter : Option DocumentFilter) (key : String) (s : Source)
    (t : Tree) : Except Error (Tree × Bool) :=
  settle (changeWith (evaluateAt w (s.depthLimit ctx)) ctx filter key s t)

end Source

end FieldPatch

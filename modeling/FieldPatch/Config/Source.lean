import FieldPatch.Config.Record
import FieldPatch.Number.Layout
import FieldPatch.Source.Basic

/-! Value sources, functions and changes as they are configured. -/

namespace FieldPatch.Config

open Yaml (Node Resolving Scalar)

/-- The text of a scalar by its meaning. Integers that take more than signed 64 bits go through
a double. -/
def scalarText? : Scalar → Option String
  | .null => none
  | .bool b => some (if b then "true" else "false")
  | .whole n =>
    some (if fitsSigned64 n.value then toString n.value
      else FloatLayout.full.render (.ofInt n.value))
  | .float x => some (FloatLayout.full.render x)
  | .text s => some s

/-- A scalar with its meaning, which must not have a local tag, as text. -/
def literal : Decoder String := fun _ n => do
  match ← n.content with
  | .scalar tag plain s =>
    guard (!tag.any Yaml.isLocalTag)
    ((Yaml.resolve tag plain s).bind scalarText? : Option String)
  | _ => failure

def flag : Decoder Bool := fun _ n => do
  match ← n.content with
  | .scalar _ true s => (Yaml.boolWord? s : Option Bool)
  | _ => failure

/-- A format by its exact name. A local tag can stand for the name, too. -/
def format : Decoder Format := fun _ n => do
  let exactly (name : String) : Option Format := Format.spellings.lookup name
  match ← n.content with
  | .scalar tag plain s =>
    match Yaml.localTag? tag with
    | some name =>
      guard (plain && (s.isEmpty || Yaml.isNullWord s))
      (exactly name : Option Format)
    | none => (exactly s : Option Format)
  | _ => failure

def argument (source : Decoder Source) : Decoder (String × Source) :=
  record (.of ["name", "valueFrom"]) fun f => do
    return (← f.required "name" text, ← f.default "valueFrom" .unset source)

def step (source : Decoder Source) : Decoder (Source × Option String) :=
  record (.of ["valueFrom", "output"]) fun f => do
    return (← f.default "valueFrom" .unset source, ← f.optional "output" text)

def edit (source : Decoder Source) : Decoder (Edit Source) :=
  record (.of ["format", "documentSelector", "keySelector", "valueFrom"]) fun f => do
    return {
      format := ← f.optional "format" format
      documents := ← f.optional "documentSelector" textMap
      key := ← f.required "keySelector" text
      source := ← f.default "valueFrom" .unset source }

def variableSource : Decoder Source :=
  record (.of ["name"]) fun f => do return .variable (← f.required "name" text)

def templateSource (source : Decoder Source) : Decoder Source :=
  record (.of ["string", "variables"]) fun f => do
    return .template (← f.required "string" text) (← f.default "variables" [] (list (argument source)))

def callSource (source : Decoder Source) : Decoder Source :=
  record (.of ["name", "arguments"]) fun f => do
    return .call (← f.required "name" text) (← f.default "arguments" [] (list (argument source)))

def scriptSource (source : Decoder Source) : Decoder Source :=
  record ⟨["exec", "args", "env", "stdin"], [("execCommand", "exec")], false⟩ fun f => do
    return .script (← f.required "exec" text) (← f.default "args" [] (list (argument source)))
      (← f.default "env" [] (list (argument source))) (← f.optional "stdin" source)

def fileSource (source : Decoder Source) : Decoder Source :=
  record (.of ["app", "source", "changes"]) fun f => do
    return .file (← f.optional "app" text) (← f.required "source" text)
      (← f.default "changes" [] (list (edit source)))

def pipelineSource (source : Decoder Source) : Decoder Source := fun depth n => do
  return .pipeline (← list (step source) depth n)

def documentSource : Decoder Source :=
  record (.of ["keySelector", "fileSelector"]) fun f => do
    return .document (← f.required "keySelector" text) (← f.optional "fileSelector" text)

def environmentSource : Decoder Source :=
  record (.of ["name", "default"]) fun f => do
    return .environment (← f.required "name" text) (← f.default "default" none (optional literal))

def literalSource : Decoder Source := fun depth n => do return .literal (← literal depth n)

/-- The kinds of source by the field that holds them. -/
def kinds (source : Decoder Source) : List (String × Decoder Source) :=
  [("default", literalSource), ("argRef", variableSource), ("basicTemplate", templateSource source),
    ("function", callSource source), ("script", scriptSource source), ("file", fileSource source),
    ("call", pipelineSource source), ("documentRef", documentSource), ("envRef", environmentSource)]

/-- What each kind of source comes to. The first kind alone may be left out by position. -/
def alternatives (f : Fields) : List (String × Decoder Source) → Resolving (List Source)
  | [] => return []
  | (name, decode) :: more => do
    let here ← if name == "default" then f.default name none (optional decode) else f.optional name decode
    return here.toList ++ (← alternatives f more)

/-- A source, of one kind at most. -/
def sourceOf (source : Decoder Source) : Decoder Source :=
  let all := kinds source
  record ⟨all.map Prod.fst, [], true⟩ fun f => do
    match ← alternatives f all with
    | [] => return .unset
    | [s] => return s
    | _ => failure

/-- A source in which others nest at most `fuel` deep. -/
def sourceWithin : Nat → Decoder Source
  | 0 => fun _ _ => failure
  | fuel + 1 => sourceOf (sourceWithin fuel)

/-- A source. Each one within another is a level deeper, so that the limit for collections is one
for sources, too. -/
def source : Decoder Source := sourceWithin (Yaml.maxDepth + 1)

def parameter : Decoder Parameter :=
  record (.of ["name", "required", "default"]) fun f => do
    return {
      name := ← f.required "name" text
      required := ← f.default "required" false flag
      default := ← f.default "default" none (optional literal) }

def function : Decoder Function :=
  record (.of ["name", "params", "valueFrom"]) fun f => do
    return {
      name := ← f.required "name" text
      parameters := ← f.default "params" [] (list parameter)
      body := ← f.default "valueFrom" .unset source }

def order : Decoder Order :=
  record (.of ["tag", "fileSelector", "documentSelector", "keySelector", "valueFrom"]) fun f => do
    return {
      tag := ← f.optional "tag" text
      files := ← f.optional "fileSelector" text
      documents := ← f.optional "documentSelector" textMap
      key := ← f.required "keySelector" text
      source := ← f.default "valueFrom" .unset source }

/-- What is to be computed, and the functions for it. -/
structure Evaluation where
  functions : List Function
  source : Source

def evaluation : Decoder Evaluation :=
  record (.of ["functions", "valueFrom"]) fun f => do
    return {
      functions := ← f.default "functions" [] (list function)
      source := ← f.default "valueFrom" .unset source }

/-- Changes, and the functions for them. -/
structure Revision where
  functions : List Function
  orders : List Order

def revision : Decoder Revision :=
  record (.of ["functions", "changes"]) fun f => do
    return {
      functions := ← f.default "functions" [] (list function)
      orders := ← f.default "changes" [] (list order) }

/-- Reads a text that is one document. -/
def read {α : Type} (decode : Decoder α) (yaml : String) : Option α :=
  match Yaml.documents yaml with
  | [some d] => d.resolve (decode Yaml.maxDepth)
  | _ => none

end FieldPatch.Config

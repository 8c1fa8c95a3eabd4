import FieldPatch.Source.Accepts
import FieldPatch.Source.Evaluate

/-! Changes carried out on the documents of a file: each change in turn, on each document in
turn, up to the first that fails. -/

namespace FieldPatch

/-- How far one change came. Documents from the one on which it fails stay as they were. -/
structure Pass where
  flags : List Bool
  documents : List Tree
  failure : Option Error

def Pass.over (change : Tree → Except Error (Tree × Bool)) : List Tree → Pass
  | [] => ⟨[], [], none⟩
  | t :: ts =>
    match change t with
    | .error e => ⟨[], t :: ts, some e⟩
    | .ok (t', changed) =>
      let rest := Pass.over change ts
      ⟨changed :: rest.flags, t' :: rest.documents, rest.failure⟩

/-- What became of a change. -/
inductive Step where
  | otherTag
  | otherFile
  | passed (p : Pass)

def Step.changes : Step → Nat
  | .passed p => p.flags.count true
  | _ => 0

def Step.failure? : Step → Option Error
  | .passed p => p.failure
  | _ => none

/-- The documents behind a step that started from some. -/
def Step.documents (before : List Tree) : Step → List Tree
  | .passed p => p.documents
  | _ => before

/-- Carries out a change if it is for the run and for the file. -/
def Order.carryOut (o : Order) (w : World) (ctx : Context) (tag : Option String) (file : String)
    (docs : List Tree) : Step :=
  if !o.isForTag tag then .otherTag
  else if !o.isForFile file then .otherFile
  else .passed (Pass.over (o.source.change w ctx o.documents o.key) docs)

/-- The steps that were taken, the documents after them, and why the last one failed. -/
structure Revision where
  steps : List Step
  documents : List Tree
  failure : Option Error

def revise (w : World) (ctx : Context) (tag : Option String) (file : String) :
    List Order → List Tree → Revision
  | [], docs => ⟨[], docs, none⟩
  | o :: os, docs =>
    let step := o.carryOut w ctx tag file docs
    let docs := step.documents docs
    match step.failure? with
    | some e => ⟨[step], docs, some e⟩
    | none =>
      let rest := revise w ctx tag file os docs
      ⟨step :: rest.steps, rest.documents, rest.failure⟩

/-- How many values changed. -/
def Revision.changes (r : Revision) : Nat := r.steps.foldr (fun s n => s.changes + n) 0

end FieldPatch

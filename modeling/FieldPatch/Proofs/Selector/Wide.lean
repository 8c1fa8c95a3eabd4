import FieldPatch.Proofs.Selector.Plain

/-! Selectors taken more widely than they can be written: with calls of any function, and followed
directly through components of any kind. What is done with the rest has no part in the result. -/

namespace FieldPatch.Selector

inductive WideStep where
  | path (p : Path)
  | call (name : String) (arguments : List Argument)

def Step.wide : Step → WideStep
  | .path p => .path p
  | .select condition => .call "select" [.comparison condition]

/-- The condition that a call stands for, if it is a call of `select` with one comparison. -/
def condition? (name : String) : List Argument → Option Comparison
  | [.comparison condition] => if name = "select" then some condition else none
  | _ => none

/-- Runs steps with calls of any function. All but conditions come to what `unsupported` says. -/
def runWide (source : String) (unsupported : String → Outcome) : List WideStep → Cursor → Outcome
  | [], c => .ok (some c)
  | .path p :: rest, c => follow source (runWide source unsupported rest) p c
  | .call name arguments :: rest, c =>
    match condition? name arguments with
    | some condition =>
      if condition.holds source c.node then runWide source unsupported rest c else .ok none
    | none => unsupported name

theorem runWide_map_wide (source : String) (unsupported : String → Outcome) (steps : List Step)
    (c : Cursor) :
    runWide source unsupported (steps.map Step.wide) c = run source steps c := by
  induction steps generalizing c with
  | nil => rfl
  | cons s rest ih =>
    cases s with
    | path p => exact congrArg (fun next => follow source next p c) (funext ih)
    | select condition =>
      simp only [List.map_cons, Step.wide, runWide, condition?, if_true, run, ih]

def Component.isDirect : Component → Bool
  | .field _ => true
  | .index _ => true
  | _ => false

/-- Writes through components of any kind. Behind those that cannot be followed directly it comes
to what `refused` says. -/
def writeThrough (text : String) (refused : Component → Written) : Path → Tree → Written
  | [], t => t.overwrite text
  | [.field name], t =>
    match t with
    | .map es =>
      if (Entries.get? name es).isSome then t.writeField name (Tree.overwrite text)
      else .ok (.map (es ++ [(name, .text text)]), true)
    | _ => t.writeField name (Tree.overwrite text)
  | .field name :: rest, t => t.writeField name (writeThrough text refused rest)
  | .index i :: rest, t =>
    match t with
    | .array xs => do
      let n ← resolveIndex i xs.length
      t.writeItem n (writeThrough text refused rest)
    | other => .error (.typeMismatch "array" other.kind)
  | k :: _, _ => refused k

/-- Writes through the components of a single path, if all of them can be followed directly. -/
def setWide (text : String) (refused : Component → Written) (e : Expression) (t : Tree) : Written :=
  match e.simplePath?.filter fun p => p.all Component.isDirect with
  | some p => writeThrough text refused p t
  | none => writeLocated text e t

theorem writeThrough_components (text : String) (refused : Component → Written)
    (ds : List DirectStep) (t : Tree) :
    writeThrough text refused (ds.map DirectStep.component) t = writeDirect text ds t := by
  induction ds generalizing t with
  | nil => rfl
  | cons d ds ih =>
    cases d with
    | field name =>
      cases ds with
      | nil => rfl
      | cons d' ds => exact congrArg (fun write => t.writeField name write) (funext ih)
    | index i =>
      have hi : writeThrough text refused (ds.map DirectStep.component) = writeDirect text ds := funext ih
      cases t <;> simp only [List.map_cons, DirectStep.component, writeThrough, writeDirect, hi]

theorem all_isDirect_iff {p : Path} :
    p.all Component.isDirect = true ↔ ∃ ds : List DirectStep, p = ds.map DirectStep.component := by
  constructor
  · intro h
    induction p with
    | nil => exact ⟨[], rfl⟩
    | cons k p ih =>
      rw [List.all_cons, Bool.and_eq_true] at h
      obtain ⟨ds, rfl⟩ := ih h.2
      cases k with
      | field name => exact ⟨.field name :: ds, rfl⟩
      | index i => exact ⟨.index i :: ds, rfl⟩
      | _ => cases h.1
  · rintro ⟨ds, rfl⟩
    rw [List.all_eq_true]
    intro k hk
    obtain ⟨d, -, rfl⟩ := List.mem_map.mp hk
    cases d <;> rfl

theorem setWide_eq_set (text : String) (refused : Component → Written) (e : Expression) (t : Tree) :
    setWide text refused e t = set text e t := by
  have hdirect : ∀ ds : List DirectStep,
      (e.simplePath?.filter fun p => p.all Component.isDirect) = some (ds.map DirectStep.component) ↔
        e.directPath? = some ds := by
    intro ds
    rw [Option.filter_eq_some_iff, Expression.directPath?, Option.bind_eq_some_iff]
    constructor
    · rintro ⟨hp, -⟩
      exact ⟨_, hp, DirectStep.mapM_ofComponent?.mpr rfl⟩
    · rintro ⟨p, hp, hds⟩
      obtain rfl := DirectStep.mapM_ofComponent?.mp hds
      exact ⟨hp, all_isDirect_iff.mpr ⟨ds, rfl⟩⟩
  cases hd : e.directPath? with
  | some ds =>
    simp only [setWide, (hdirect ds).mpr hd, set, hd]
    exact writeThrough_components text refused ds t
  | none =>
    have hnone : (e.simplePath?.filter fun p => p.all Component.isDirect) = none := by
      rw [Option.eq_none_iff_forall_ne_some]
      intro p hp
      obtain ⟨ds, rfl⟩ := all_isDirect_iff.mp (Option.filter_eq_some_iff.mp hp).2
      rw [(hdirect ds).mp hp] at hd
      cases hd
    simp only [setWide, hnone, set, hd]

end FieldPatch.Selector

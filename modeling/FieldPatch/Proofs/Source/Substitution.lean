import FieldPatch.Proofs.Source.FreeNames

/-! Texts in the place of free names, and contexts that differ by the bindings which such texts
stand for. -/

namespace FieldPatch

namespace Source

/-- What is put for a name behind a step of a pipeline: the name that the step binds is left. -/
def shade (σ : String → Option String) (output : Option String) (name : String) : Option String :=
  if boundName? output = some name then none else σ name

def single (name text : String) (other : String) : Option String :=
  if other = name then some text else none

mutual

/-- The source with literals in the place of the free names that have a text. -/
def subst (σ : String → Option String) : Source → Source
  | .literal text => .literal text
  | .variable name => match σ name with
    | some text => .literal text
    | none => .variable name
  | .template text bindings => .template text (substArguments σ bindings)
  | .call name arguments => .call name (substArguments σ arguments)
  | .script command arguments settings none =>
    .script command (substArguments σ arguments) (substArguments σ settings) none
  | .script command arguments settings (some input) =>
    .script command (substArguments σ arguments) (substArguments σ settings) (some (subst σ input))
  | .file app source edits => .file app source (substEdits σ edits)
  | .pipeline steps => .pipeline (substSteps σ steps)
  | .document selector fileSelector => .document selector fileSelector
  | .environment name default => .environment name default
  | .unset => .unset

def substArguments (σ : String → Option String) : List (String × Source) → List (String × Source)
  | [] => []
  | (name, s) :: more => (name, subst σ s) :: substArguments σ more

def substSteps (σ : String → Option String) :
    List (Source × Option String) → List (Source × Option String)
  | [] => []
  | (s, output) :: more => (subst σ s, output) :: substSteps (shade σ output) more

def substEdits (σ : String → Option String) : List (Edit Source) → List (Edit Source)
  | [] => []
  | ⟨format, documents, key, s⟩ :: more =>
    ⟨format, documents, key, subst σ s⟩ :: substEdits σ more

end

/-- The names that are left without a text. -/
def left (σ : String → Option String) (names : List String) : List String :=
  names.filter fun name => (σ name).isNone

theorem left_append (σ : String → Option String) (names more : List String) :
    left σ (names ++ more) = left σ names ++ left σ more :=
  List.filter_append names more

theorem left_shade (σ : String → Option String) (output : Option String) (names : List String) :
    (left (shade σ output) names).filter (fun name => boundName? output ≠ some name) =
      left σ (names.filter fun name => boundName? output ≠ some name) := by
  simp only [left, List.filter_filter]
  refine List.filter_congr fun name _ => ?_
  by_cases hb : boundName? output = some name
  · simp [hb]
  · simp [shade, hb]

mutual

theorem freeNames_subst (σ : String → Option String) :
    ∀ s : Source, (s.subst σ).freeNames = left σ s.freeNames
  | .literal text => rfl
  | .variable name => by
    cases h : σ name <;> simp [subst, freeNames, left, h]
  | .template text bindings => freeNamesOfArguments_subst σ bindings
  | .call name arguments => freeNamesOfArguments_subst σ arguments
  | .script command arguments settings none => by
    simp only [subst, freeNames, left_append, freeNamesOfArguments_subst]
  | .script command arguments settings (some input) => by
    simp only [subst, freeNames, left_append, freeNamesOfArguments_subst, freeNames_subst]
  | .file app source edits => freeNamesOfEdits_subst σ edits
  | .pipeline steps => freeNamesOfSteps_subst σ steps
  | .document selector fileSelector => rfl
  | .environment name default => rfl
  | .unset => rfl

theorem freeNamesOfArguments_subst (σ : String → Option String) :
    ∀ arguments, freeNamesOfArguments (substArguments σ arguments) =
      left σ (freeNamesOfArguments arguments)
  | [] => rfl
  | (name, s) :: more => by
    simp only [substArguments, freeNamesOfArguments, left_append, freeNames_subst σ s,
      freeNamesOfArguments_subst σ more]

theorem freeNamesOfSteps_subst (σ : String → Option String) :
    ∀ steps, freeNamesOfSteps (substSteps σ steps) = left σ (freeNamesOfSteps steps)
  | [] => rfl
  | (s, output) :: more => by
    simp only [substSteps, freeNamesOfSteps, left_append, freeNames_subst σ s,
      freeNamesOfSteps_subst (shade σ output) more, left_shade]

theorem freeNamesOfEdits_subst (σ : String → Option String) :
    ∀ edits, freeNamesOfEdits (substEdits σ edits) = left σ (freeNamesOfEdits edits)
  | [] => rfl
  | ⟨format, documents, key, s⟩ :: more => by
    simp only [substEdits, freeNamesOfEdits, left_append, freeNames_subst σ s,
      freeNamesOfEdits_subst σ more]

end

mutual

theorem subst_congr : ∀ (s : Source) {σ τ : String → Option String},
    (∀ name ∈ s.freeNames, σ name = τ name) → s.subst σ = s.subst τ
  | .literal text, _, _, _ => rfl
  | .variable name, σ, τ, h => by
    have hname : σ name = τ name := h name List.mem_cons_self
    simp only [subst, hname]
  | .template text bindings, _, _, h => congrArg (Source.template text) (substArguments_congr bindings h)
  | .call name arguments, _, _, h => congrArg (Source.call name) (substArguments_congr arguments h)
  | .script command arguments settings none, _, _, h => by
    obtain ⟨ha, hs⟩ := List.forall_mem_append.mp h
    simp only [subst, substArguments_congr arguments ha, substArguments_congr settings hs]
  | .script command arguments settings (some input), _, _, h => by
    obtain ⟨has, hi⟩ := List.forall_mem_append.mp h
    obtain ⟨ha, hs⟩ := List.forall_mem_append.mp has
    simp only [subst, substArguments_congr arguments ha, substArguments_congr settings hs,
      subst_congr input hi]
  | .file app source edits, _, _, h => congrArg (Source.file app source) (substEdits_congr edits h)
  | .pipeline steps, _, _, h => congrArg Source.pipeline (substSteps_congr steps h)
  | .document selector fileSelector, _, _, _ => rfl
  | .environment name default, _, _, _ => rfl
  | .unset, _, _, _ => rfl

theorem substArguments_congr : ∀ (arguments : List (String × Source)) {σ τ : String → Option String},
    (∀ name ∈ freeNamesOfArguments arguments, σ name = τ name) →
      substArguments σ arguments = substArguments τ arguments
  | [], _, _, _ => rfl
  | (name, s) :: more, _, _, h => by
    obtain ⟨hs, hmore⟩ := List.forall_mem_append.mp h
    simp only [substArguments, subst_congr s hs, substArguments_congr more hmore]

theorem substSteps_congr : ∀ (steps : List (Source × Option String)) {σ τ : String → Option String},
    (∀ name ∈ freeNamesOfSteps steps, σ name = τ name) → substSteps σ steps = substSteps τ steps
  | [], _, _, _ => rfl
  | (s, output) :: more, σ, τ, h => by
    obtain ⟨hs, hmore⟩ := List.forall_mem_append.mp h
    have hshade : ∀ name ∈ freeNamesOfSteps more, shade σ output name = shade τ output name := by
      intro name hn
      by_cases hb : boundName? output = some name
      · simp only [shade, hb, if_true]
      · simp only [shade, hb, if_false]
        exact hmore name (List.mem_filter.mpr ⟨hn, by simpa using hb⟩)
    simp only [substSteps, subst_congr s hs, substSteps_congr more hshade]

theorem substEdits_congr : ∀ (edits : List (Edit Source)) {σ τ : String → Option String},
    (∀ name ∈ freeNamesOfEdits edits, σ name = τ name) → substEdits σ edits = substEdits τ edits
  | [], _, _, _ => rfl
  | ⟨format, documents, key, s⟩ :: more, _, _, h => by
    obtain ⟨hs, hmore⟩ := List.forall_mem_append.mp h
    simp only [substEdits, subst_congr s hs, substEdits_congr more hmore]

end

example : (Source.pipeline [(.variable "x", none), (.literal "b", some "x"), (.variable "x", none)]).subst
      (single "x" "a") =
    .pipeline [(.literal "a", none), (.literal "b", some "x"), (.variable "x", none)] := by
  rfl

end Source

namespace Context

open Source (shade single)

/-- Contexts that differ in their bindings only: `a` has the texts of `σ` before what `b` has. -/
structure Fills (σ : String → Option String) (a b : Context) : Prop extends AgreeOn [] a b where
  value : ∀ name, a.binding? name = (σ name).or (b.binding? name)

variable {σ : String → Option String} {a b : Context}

theorem Fills.refl (a : Context) : Fills (fun _ => none) a a :=
  ⟨⟨rfl, rfl, rfl, rfl, rfl, rfl, by simp⟩, fun _ => rfl⟩

theorem fills_bindings (a : Context) : Fills a.binding? a { a with bindings := [] } :=
  ⟨⟨rfl, rfl, rfl, rfl, rfl, rfl, by simp⟩, fun _ => Option.or_none.symm⟩

theorem Fills.withDocument (h : Fills σ a b) (t : Tree) :
    Fills σ { a with document := some t } { b with document := some t } :=
  ⟨h.toAgreeOn.withDocument t, h.value⟩

theorem Fills.withFile (h : Fills σ a b) (path : String) :
    Fills σ { a with file := path } { b with file := path } :=
  ⟨h.toAgreeOn.withFile path, h.value⟩

theorem binding?_withVariable (ctx : Context) (name value other : String) :
    (ctx.withVariable name value).binding? other =
      if other = name then some value else ctx.binding? other := by
  by_cases he : other = name
  · subst he
    simp [binding?, withVariable]
  · simp [binding?, withVariable, he, Entries.get?_put_of_ne he]

theorem binding?_withOutput (ctx : Context) (output : Option String) (text name : String) :
    (ctx.withOutput output text).binding? name =
      if Source.boundName? output = some name then some text else ctx.binding? name := by
  cases output with
  | none => simp [withOutput, Source.boundName?]
  | some bound =>
    by_cases hb : bound = ""
    · simp [withOutput, Source.boundName?, hb, Option.filter]
    · have hbound : Source.boundName? (some bound) = some bound := by
        simp [Source.boundName?, Option.filter, hb]
      have hout : ctx.withOutput (some bound) text = ctx.withVariable bound text := by
        simp [withOutput, hb]
      rw [hbound, hout, binding?_withVariable]
      simp only [Option.some.injEq, eq_comm]

theorem functions_withOutput (ctx : Context) (output : Option String) (text : String) :
    (ctx.withOutput output text).functions = ctx.functions := by
  unfold withOutput
  split
  · split <;> rfl
  · rfl

theorem Fills.withOutput (h : Fills σ a b) (output : Option String) (text : String) :
    Fills (shade σ output) (a.withOutput output text) (b.withOutput output text) := by
  refine ⟨(h.toAgreeOn.mono (by simp)).withOutput text, fun name => ?_⟩
  rw [binding?_withOutput, binding?_withOutput, h.value name]
  by_cases hb : Source.boundName? output = some name
  · simp [shade, hb]
  · simp [shade, hb]

theorem fills_withVariable (ctx : Context) (name text : String) :
    Fills (single name text) (ctx.withVariable name text) ctx := by
  refine ⟨⟨rfl, rfl, rfl, rfl, rfl, rfl, by simp⟩, fun other => ?_⟩
  rw [binding?_withVariable]
  by_cases he : other = name
  · simp [single, he]
  · simp [single, he]

end Context

end FieldPatch

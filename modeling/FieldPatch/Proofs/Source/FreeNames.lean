import FieldPatch.Source.Context

/-! The names whose values a source asks its context for, and contexts that agree on some
names. -/

namespace FieldPatch

namespace Source

/-- The name under which later steps of a pipeline find what a step came to. -/
def boundName? (output : Option String) : Option String := output.filter (· ≠ "")

mutual

/-- The names that occur free. The body of a called function adds none: it sees the values of
its own parameters only. -/
def freeNames : Source → List String
  | .literal _ => []
  | .variable name => [name]
  | .template _ bindings => freeNamesOfArguments bindings
  | .call _ arguments => freeNamesOfArguments arguments
  | .script _ arguments settings none =>
    freeNamesOfArguments arguments ++ freeNamesOfArguments settings
  | .script _ arguments settings (some input) =>
    freeNamesOfArguments arguments ++ freeNamesOfArguments settings ++ freeNames input
  | .file _ _ edits => freeNamesOfEdits edits
  | .pipeline steps => freeNamesOfSteps steps
  | .document _ _ => []
  | .environment _ _ => []
  | .unset => []

def freeNamesOfArguments : List (String × Source) → List String
  | [] => []
  | (_, s) :: more => freeNames s ++ freeNamesOfArguments more

/-- A step binds its name in the steps behind it, not in itself. -/
def freeNamesOfSteps : List (Source × Option String) → List String
  | [] => []
  | (s, output) :: more =>
    freeNames s ++ (freeNamesOfSteps more).filter fun name => boundName? output ≠ some name

def freeNamesOfEdits : List (Edit Source) → List String
  | [] => []
  | ⟨_, _, _, s⟩ :: more => freeNames s ++ freeNamesOfEdits more

end

end Source

namespace Context

/-- Contexts that differ in nothing but the values of names that are not among `names`. -/
structure AgreeOn (names : List String) (a b : Context) : Prop where
  file : a.file = b.file
  document : a.document = b.document
  functions : a.functions = b.functions
  home : a.home = b.home
  scriptRoots : a.scriptRoots = b.scriptRoots
  fileRoots : a.fileRoots = b.fileRoots
  binding : ∀ name ∈ names, a.binding? name = b.binding? name

variable {names more : List String} {a b : Context}

theorem AgreeOn.mono (h : AgreeOn more a b) (hs : names ⊆ more) : AgreeOn names a b :=
  { h with binding := fun name hn => h.binding name (hs hn) }

theorem AgreeOn.withDocument (h : AgreeOn names a b) (t : Tree) :
    AgreeOn names { a with document := some t } { b with document := some t } :=
  { h with document := rfl }

theorem AgreeOn.withFile (h : AgreeOn names a b) (path : String) :
    AgreeOn names { a with file := path } { b with file := path } :=
  { h with file := rfl }

/-- In the same bindings, contexts that agree on anything are the same. -/
theorem AgreeOn.withBindings (h : AgreeOn names a b) (bindings : Entries String) :
    { a with bindings } = { b with bindings } := by
  obtain ⟨hfile, hdoc, hfun, hhome, hscripts, hfiles, -⟩ := h
  simp only [hfile, hdoc, hfun, hhome, hscripts, hfiles]

/-- A name that is bound on both sides need not have been agreed on. -/
theorem AgreeOn.withVariable {name : String}
    (h : AgreeOn (names.filter fun n => some name ≠ some n) a b) (value : String) :
    AgreeOn names (a.withVariable name value) (b.withVariable name value) := by
  refine { h with binding := ?_ }
  intro n hn
  by_cases he : n = name
  · subst he
    simp [binding?, Context.withVariable]
  · have hb := h.binding n (by simpa [hn] using Ne.symm he)
    simpa [binding?, Context.withVariable, Entries.get?_put_of_ne he] using hb

/-- The context behind a step of a pipeline that came to `text`. -/
def withOutput (ctx : Context) (output : Option String) (text : String) : Context :=
  match output with
  | some name => if name.isEmpty then ctx else ctx.withVariable name text
  | none => ctx

theorem AgreeOn.withOutput {output : Option String}
    (h : AgreeOn (names.filter fun n => Source.boundName? output ≠ some n) a b) (text : String) :
    AgreeOn names (a.withOutput output text) (b.withOutput output text) := by
  cases output with
  | none => exact h.mono fun n hn => by simpa [Source.boundName?] using hn
  | some name =>
    by_cases hn : name = ""
    · subst hn
      exact h.mono fun n hn => by simpa [Source.boundName?] using hn
    · have hb : Source.boundName? (some name) = some name := by
        simp [Source.boundName?, Option.filter, hn]
      rw [hb] at h
      simpa [Context.withOutput, hn] using h.withVariable text

end Context

end FieldPatch

import FieldPatch.Proofs.Except
import FieldPatch.Proofs.Source.Inclusion
import FieldPatch.Proofs.Source.Scoping
import FieldPatch.Proofs.Tree.Entries
import Mathlib

/-! Calls and pipelines as substitution: what is supplied for the parameters stands in the body,
and what a step of a pipeline came to stands in the steps behind it. -/

namespace FieldPatch

open Context (Fills)

/-- The defaults by the names of their parameters. -/
def Parameter.defaults (ps : List Parameter) : List (String × String) :=
  ps.filterMap fun p => p.default.map fun text => (p.name, text)

/-- What the parameter of a name comes to: the text that is supplied for it last, else the last
default it is declared with. -/
def Parameter.value? (ps : List Parameter) (supplied : List (String × String)) (name : String) :
    Option String :=
  if name ∈ ps.map Parameter.name then
    (Entries.last? name supplied).or (Entries.last? name (Parameter.defaults ps))
  else none

section

variable {f : Function} {ps : List Parameter} {p : Parameter} {supplied others : List (String × String)}
  {bindings : Entries String} {name : String}

theorem Parameter.last?_defaults_cons (name : String) (p : Parameter) (ps : List Parameter) :
    Entries.last? name (defaults (p :: ps)) =
      (Entries.last? name (defaults ps)).or (if p.name = name then p.default else none) := by
  cases hd : p.default with
  | none => simp [defaults, hd]
  | some text =>
    have he : defaults (p :: ps) = (p.name, text) :: defaults ps := by simp [defaults, hd]
    rw [he, Entries.last?_cons]

theorem Parameter.last?_defaults_of_notMem (h : name ∉ ps.map Parameter.name) :
    Entries.last? name (defaults ps) = none := by
  induction ps with
  | nil => rfl
  | cons p ps ih =>
    obtain ⟨hp, hps⟩ := not_or.mp (List.mem_cons.not.mp h)
    rw [last?_defaults_cons, ih hps, if_neg (Ne.symm hp)]
    rfl

theorem Parameter.value?_cons (name : String) (p : Parameter) (ps : List Parameter)
    (supplied : List (String × String)) :
    value? (p :: ps) supplied name = (value? ps supplied name).or
      (if p.name = name then (Entries.last? name supplied).or p.default else none) := by
  by_cases hp : p.name = name
  · by_cases hps : name ∈ ps.map Parameter.name
    · cases hs : Entries.last? name supplied <;> simp [value?, hp, hps, hs, last?_defaults_cons]
    · simp [value?, hp, hps, last?_defaults_cons, last?_defaults_of_notMem hps]
  · simp [value?, hp, Ne.symm hp, last?_defaults_cons]

/-- What is supplied for a parameter, else its own default. -/
def Parameter.given (p : Parameter) (supplied : List (String × String)) : Option String :=
  (Entries.last? p.name supplied).or p.default

theorem Function.bind_cons (f : Function) (supplied : List (String × String)) (p : Parameter)
    (ps : List Parameter) :
    f.bind (Entries.ofPairs supplied) (p :: ps) =
      if (p.given supplied).isNone && p.required then
        .error (.evaluation (.missingParameter p.name f.name))
      else f.bind (Entries.ofPairs supplied) ps >>= fun more =>
        .ok (match p.given supplied, Entries.get? p.name more with
          | some v, none => (p.name, v) :: more
          | _, _ => more) := by
  have hgiven : p.given supplied = (Entries.get? p.name (Entries.ofPairs supplied) <|> p.default) := by
    rw [Entries.get?_ofPairs, Option.orElse_eq_orElse, Option.orElse_eq_or]
    rfl
  rw [hgiven]
  rfl

theorem Function.get?_bind (h : f.bind (Entries.ofPairs supplied) ps = .ok bindings) (name : String) :
    Entries.get? name bindings = Parameter.value? ps supplied name := by
  induction ps generalizing bindings with
  | nil =>
    cases h
    rfl
  | cons p ps ih =>
    rw [bind_cons] at h
    split at h
    · cases h
    · obtain ⟨more, hmore, hb⟩ := ok_of_bind h
      have hrest := ih hmore
      rw [Parameter.value?_cons, ← hrest, ← Except.ok.inj hb]
      by_cases hp : p.name = name
      · subst hp
        rw [if_pos rfl, ← Parameter.given]
        cases p.given supplied with
        | none => exact Option.or_none.symm
        | some v => cases hv : Entries.get? p.name more <;> simp [Entries.get?, hv]
      · rw [if_neg hp, Option.or_none]
        split
        · exact if_neg hp
        · rfl

theorem Function.exists_bind_iff (f : Function) (supplied : List (String × String))
    (ps : List Parameter) :
    (∃ bindings, f.bind (Entries.ofPairs supplied) ps = .ok bindings) ↔
      ∀ p ∈ ps, p.required → p.given supplied ≠ none := by
  induction ps with
  | nil => exact ⟨fun _ => by simp, fun _ => ⟨[], rfl⟩⟩
  | cons p ps ih =>
    rw [bind_cons, List.forall_mem_cons, ← ih]
    split
    · next hmissing =>
      have hp : p.given supplied = none ∧ p.required := by simpa using hmissing
      exact ⟨nofun, fun h => absurd hp.1 (h.1 hp.2)⟩
    · next hgiven =>
      have hp : p.required → p.given supplied ≠ none := by
        intro hr hn
        exact hgiven (by simp [hr, hn])
      constructor
      · rintro ⟨bindings, h⟩
        obtain ⟨more, hmore, -⟩ := ok_of_bind h
        exact ⟨hp, more, hmore⟩
      · rintro ⟨-, more, hmore⟩
        exact ⟨_, by rw [hmore]; rfl⟩

theorem Function.bind_congr (f : Function) (h : ∀ p ∈ ps, p.given others = p.given supplied) :
    f.bind (Entries.ofPairs others) ps = f.bind (Entries.ofPairs supplied) ps := by
  induction ps with
  | nil => rfl
  | cons p ps ih =>
    obtain ⟨hp, hps⟩ := List.forall_mem_cons.mp h
    rw [bind_cons, bind_cons, hp, ih hps]

end

namespace Source

variable {w : World} {ctx : Context} {arguments : List (String × Source)}
  {supplied : List (String × String)}

/-- Each argument comes to the text that stands for it. -/
def Supplies (w : World) (ctx : Context) (arguments : List (String × Source))
    (supplied : List (String × String)) : Prop :=
  List.Forall₂ (fun argument text => argument.1 = text.1 ∧ argument.2.Ends w ctx (.ok text.2))
    arguments supplied

theorem Supplies.eventually (h : Supplies w ctx arguments supplied) :
    ∃ least, ∀ depth ≥ least,
      evaluateAll (evaluateAt w depth ctx) arguments = Evaluation.of (.ok supplied) := by
  induction h with
  | nil => exact ⟨0, fun _ _ => rfl⟩
  | @cons argument text arguments supplied hs _ ih =>
    obtain ⟨name, s⟩ := argument
    obtain ⟨name', value⟩ := text
    obtain ⟨rfl, first, hfirst⟩ := hs
    obtain ⟨least, hleast⟩ := ih
    refine ⟨max first least, fun depth hdepth => ?_⟩
    have hs : evaluateAt w depth ctx s = Evaluation.of (.ok value) :=
      run_mono (by omega) hfirst
    have hmore := hleast depth (by omega)
    simp only [evaluateAll, hs, hmore]
    rfl

theorem Supplies.call_eventually (h : Supplies w ctx arguments supplied) {name : String}
    {f : Function} (hf : ctx.function? name = some f) :
    ∃ least, ∀ depth ≥ least, evaluateAt w (depth + 1) ctx (.call name arguments) =
      Evaluation.of (f.bind (Entries.ofPairs supplied) f.parameters) >>= fun bindings =>
        evaluateAt w depth { ctx with bindings } f.body := by
  obtain ⟨least, hleast⟩ := h.eventually
  refine ⟨least, fun depth hdepth => ?_⟩
  show callWith (evaluateAt w depth) ctx name arguments = _
  simp only [callWith, hf, hleast depth hdepth]
  rfl

theorem sameResult_call (h : Supplies w ctx arguments supplied) {name : String} {f : Function}
    (hf : ctx.function? name = some f)
    (hgiven : ∀ p ∈ f.parameters, p.required → p.given supplied ≠ none) :
    SameResult w ctx (.call name arguments) { ctx with bindings := [] }
      (f.body.subst (Parameter.value? f.parameters supplied)) := by
  obtain ⟨least, hleast⟩ := h.call_eventually hf
  obtain ⟨bindings, hbind⟩ := (f.exists_bind_iff supplied f.parameters).mpr hgiven
  have hfills : Fills (Parameter.value? f.parameters supplied) { ctx with bindings }
      { ctx with bindings := [] } := by
    refine ⟨⟨rfl, rfl, rfl, rfl, rfl, rfl, by simp⟩, fun name => ?_⟩
    show Entries.get? name bindings = _
    rw [Function.get?_bind hbind]
    exact Option.or_none.symm
  refine sameResult_of_eventually least 1 0 fun depth hdepth => ?_
  rw [hleast depth hdepth, hbind, Evaluation.of_ok_bind]
  exact evaluateAt_subst hfills w depth f.body

theorem sameResult_arguments {others : List (String × Source)} {supplied' : List (String × String)}
    (h : Supplies w ctx arguments supplied) (h' : Supplies w ctx others supplied') {name : String}
    {f : Function} (hf : ctx.function? name = some f)
    (hsame : ∀ p ∈ f.parameters, Entries.last? p.name supplied' = Entries.last? p.name supplied) :
    SameResult w ctx (.call name others) ctx (.call name arguments) := by
  obtain ⟨least, hleast⟩ := h.call_eventually hf
  obtain ⟨least', hleast'⟩ := h'.call_eventually hf
  have hgiven : ∀ p ∈ f.parameters, p.given supplied' = p.given supplied := by
    intro p hp
    rw [Parameter.given, Parameter.given, hsame p hp]
  refine sameResult_of_eventually (max least least') 1 1 fun depth hdepth => ?_
  rw [hleast depth (by omega), hleast' depth (by omega), f.bind_congr hgiven]

theorem sameResult_pipeline {s : Source} {text output : String}
    {more : List (Source × Option String)} (h : s.Ends w ctx (.ok text)) (ho : output ≠ "")
    (hm : more ≠ []) :
    SameResult w ctx (.pipeline ((s, some output) :: more)) ctx
      ((Source.pipeline more).subst (single output text)) := by
  obtain ⟨least, hleast⟩ := h
  refine sameResult_of_eventually least 1 1 fun depth hdepth => ?_
  have hs : evaluateAt w depth ctx s = Evaluation.of (.ok text) := run_mono hdepth hleast
  have hout : ctx.withOutput (some output) text = ctx.withVariable output text := by
    simp [Context.withOutput, ho]
  have hfirst : evaluateAt w (depth + 1) ctx (.pipeline ((s, some output) :: more)) =
      evaluateAt w (depth + 1) (ctx.withVariable output text) (.pipeline more) := by
    show pipelineWith (evaluateAt w depth) ctx "" ((s, some output) :: more) = _
    rw [pipelineWith_cons, hs, Evaluation.of_ok_bind, hout]
    obtain ⟨next, more, rfl⟩ := List.exists_cons_of_ne_nil hm
    rfl
  rw [hfirst]
  exact evaluateAt_subst (Context.fills_withVariable ctx output text) w (depth + 1) _

/-- Calls and pipelines substitute. A call comes to what the body of the function does with the
values of the parameters in their places and no variables; the parameters that are not declared
make no difference. A pipeline comes to what its steps behind the first do with the text that
the first one came to. -/
theorem calls_and_pipelines_substitute (w : World) (ctx : Context) :
    (∀ name f arguments supplied, ctx.function? name = some f → Supplies w ctx arguments supplied →
      (∀ p ∈ f.parameters, p.required → p.given supplied ≠ none) →
      SameResult w ctx (.call name arguments) { ctx with bindings := [] }
        (f.body.subst (Parameter.value? f.parameters supplied))) ∧
    (∀ name f arguments supplied others supplied', ctx.function? name = some f →
      Supplies w ctx arguments supplied → Supplies w ctx others supplied' →
      (∀ p ∈ f.parameters, Entries.last? p.name supplied' = Entries.last? p.name supplied) →
      SameResult w ctx (.call name others) ctx (.call name arguments)) ∧
    ∀ s text output more, Ends w ctx s (.ok text) → output ≠ "" → more ≠ [] →
      SameResult w ctx (.pipeline ((s, some output) :: more)) ctx
        ((Source.pipeline more).subst (single output text)) := by
  refine ⟨?_, ?_, ?_⟩
  · exact fun name f arguments supplied hf h hgiven => sameResult_call h hf hgiven
  · exact fun name f arguments supplied others supplied' hf h h' hsame => sameResult_arguments h h' hf hsame
  · exact fun s text output more h ho hm => sameResult_pipeline h ho hm

def greet : Function :=
  ⟨"greet", [⟨"name", true, none⟩, ⟨"mark", false, some "!"⟩],
    .template "hello $name$mark" [("name", .variable "name"), ("mark", .variable "mark")]⟩

/-- A caller with a name of its own. -/
def greeter : Context :=
  { Context.root "/srv" with functions := [greet], bindings := [("name", "nobody"), ("mark", "?")] }

def greetWorld : Source := .call "greet" [("name", .literal "world"), ("rest", .variable "mark")]

def helloWorld : Source :=
  .template "hello $name$mark" [("name", .literal "world"), ("mark", .literal "!")]

theorem calls_and_pipelines_substitute_greet :
    SameResult bareWorld greeter greetWorld { greeter with bindings := [] } helloWorld ∧
    greetWorld.Ends bareWorld greeter (.ok "hello world!") ∧
    SameResult bareWorld greeter (.call "greet" [("name", .literal "world")]) greeter greetWorld ∧
    SameResult bareWorld greeter greeting greeter
      (.pipeline [(.template "hello $name$mark"
        [("name", .literal "world"), ("mark", .variable "mark")], none)]) := by
  obtain ⟨hcall, harguments, hpipeline⟩ := calls_and_pipelines_substitute bareWorld greeter
  have hgreet : greeter.function? "greet" = some greet := by rfl
  have hliteral : (Source.literal "world").Ends bareWorld greeter (.ok "world") := ⟨1, rfl⟩
  have hrest : (Source.variable "mark").Ends bareWorld greeter (.ok "?") := ⟨1, by rfl⟩
  have hsupplied : Supplies bareWorld greeter
      [("name", .literal "world"), ("rest", .variable "mark")] [("name", "world"), ("rest", "?")] :=
    .cons ⟨rfl, hliteral⟩ (.cons ⟨rfl, hrest⟩ .nil)
  have hless : Supplies bareWorld greeter [("name", .literal "world")] [("name", "world")] :=
    .cons ⟨rfl, hliteral⟩ .nil
  have hbody : greet.body.subst (Parameter.value? greet.parameters
      [("name", "world"), ("rest", "?")]) = helloWorld := by cbv
  have hgiven := hcall "greet" greet _ _ hgreet hsupplied (by decide)
  rw [hbody] at hgiven
  have hhello : helloWorld.Ends bareWorld { greeter with bindings := [] } (.ok "hello world!") :=
    ⟨2, by cbv⟩
  exact ⟨hgiven, (hgiven.ends _).mpr hhello,
    harguments "greet" greet _ _ _ _ hgreet hsupplied hless (by decide),
    hpipeline _ "world" "name" _ hliteral (by decide) (by simp)⟩

end Source

end FieldPatch

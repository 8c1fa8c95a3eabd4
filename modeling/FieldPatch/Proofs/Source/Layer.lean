import FieldPatch.Proofs.Source.Substitution
import FieldPatch.Source.Evaluate

/-! Two evaluations of one layer, held side by side. What relates the evaluations of the sources
directly below, and passes through sequencing, relates the two layers. -/

namespace FieldPatch

open Context (Fills)

/-- Relations of evaluations that hold of one result and itself, and of sequences if they hold
of the parts. -/
structure Evaluation.Congruence (R : ∀ {α : Type}, Evaluation α → Evaluation α → Prop) : Prop where
  of : ∀ {α : Type} (r : Except Error α), R (Evaluation.of r) (Evaluation.of r)
  bind : ∀ {α β : Type} {x y : Evaluation α} {f g : α → Evaluation β},
    R x y → (∀ v, R (f v) (g v)) → R (x >>= f) (y >>= g)

namespace Source

/-- The sources directly below. -/
def children : Source → List Source
  | .template _ bindings => bindings.map Prod.snd
  | .call _ arguments => arguments.map Prod.snd
  | .script _ arguments settings input =>
    arguments.map Prod.snd ++ settings.map Prod.snd ++ input.toList
  | .file _ _ edits => edits.map Edit.source
  | .pipeline steps => steps.map Prod.fst
  | _ => []

end Source

theorem pipelineWith_cons (evaluate : Evaluator) (ctx : Context) (last : String) (s : Source)
    (output : Option String) (more : List (Source × Option String)) :
    pipelineWith evaluate ctx last ((s, output) :: more) =
      evaluate ctx s >>= fun text => pipelineWith evaluate (ctx.withOutput output text) text more :=
  rfl

section

variable {R : ∀ {α : Type}, Evaluation α → Evaluation α → Prop} {e e' : Evaluator}
  {functions : List Function} {σ : String → Option String} {a b : Context}

/-- The relation holds of a source and any substitution into it, in contexts that differ by what
is substituted. -/
def Alike (R : ∀ {α : Type}, Evaluation α → Evaluation α → Prop) (e e' : Evaluator)
    (functions : List Function) (s : Source) : Prop :=
  ∀ σ a b, a.functions = functions → Fills σ a b → R (e a s) (e' b (s.subst σ))

theorem changeEach_congr (hR : Evaluation.Congruence R) {f g : Tree → Evaluation (Tree × Bool)}
    (h : ∀ t, R (f t) (g t)) (docs : List Tree) : R (changeEach f docs) (changeEach g docs) := by
  induction docs with
  | nil => exact hR.of (.ok ([], []))
  | cons t ts ih =>
    refine hR.bind (h t) fun p => ?_
    exact hR.bind ih fun q => hR.of (.ok (p.1 :: q.1, p.2 :: q.2))

variable (hR : Evaluation.Congruence R) (hf : a.functions = functions) (hab : Fills σ a b)

include hR hf hab

theorem evaluateAll_alike {arguments : List (String × Source)}
    (h : ∀ s ∈ arguments.map Prod.snd, Alike R e e' functions s) :
    R (evaluateAll (e a) arguments) (evaluateAll (e' b) (Source.substArguments σ arguments)) := by
  induction arguments with
  | nil => exact hR.of (.ok [])
  | cons argument more ih =>
    obtain ⟨name, s⟩ := argument
    obtain ⟨hs, hmore⟩ := List.forall_mem_cons.mp h
    refine hR.bind (hs σ a b hf hab) fun text => ?_
    exact hR.bind (ih hmore) fun texts => hR.of (.ok ((name, text) :: texts))

theorem pipelineWith_alike {steps : List (Source × Option String)}
    (h : ∀ s ∈ steps.map Prod.fst, Alike R e e' functions s) (last : String) :
    R (pipelineWith e a last steps) (pipelineWith e' b last (Source.substSteps σ steps)) := by
  induction steps generalizing a b σ last with
  | nil => exact hR.of (.ok last)
  | cons step more ih =>
    obtain ⟨s, output⟩ := step
    obtain ⟨hs, hmore⟩ := List.forall_mem_cons.mp h
    refine hR.bind (hs σ a b hf hab) fun text => ?_
    exact ih (a.functions_withOutput output text ▸ hf) (hab.withOutput output text) hmore text

theorem changeWith_alike {s : Source} (h : Alike R e e' functions s) (filter : Option DocumentFilter)
    (key : String) (t : Tree) :
    R (changeWith e a filter key s t) (changeWith e' b filter key (s.subst σ) t) := by
  have hedit : ∀ accepted : Bool, R
      (if accepted then do
        let p ← Evaluation.of (Selector.parse key)
        let text ← e { a with document := some t } s
        Evaluation.of (Selector.set text p t)
      else return (t, false))
      (if accepted then do
        let p ← Evaluation.of (Selector.parse key)
        let text ← e' { b with document := some t } (s.subst σ)
        Evaluation.of (Selector.set text p t)
      else return (t, false)) := by
    rintro (_ | _)
    · exact hR.of (.ok (t, false))
    · exact hR.bind (hR.of _) fun p => hR.bind (h σ _ _ hf (hab.withDocument t)) fun text => hR.of _
  cases filter with
  | none => exact hR.bind (hR.of (.ok true)) hedit
  | some f => exact hR.bind (hR.of _) hedit

theorem editAll_alike {edits : List (Edit Source)}
    (h : ∀ s ∈ edits.map Edit.source, Alike R e e' functions s) (docs : List Tree) :
    R (editAll e a edits docs) (editAll e' b (Source.substEdits σ edits) docs) := by
  induction edits generalizing docs with
  | nil => exact hR.of (.ok docs)
  | cons edit more ih =>
    obtain ⟨hs, hmore⟩ := List.forall_mem_cons.mp h
    have hchange := changeWith_alike hR hf hab hs edit.documents edit.key
    exact hR.bind (changeEach_congr hR hchange docs) fun p => ih hmore p.1

theorem callWith_alike {name : String} {arguments : List (String × Source)}
    (h : ∀ s ∈ arguments.map Prod.snd, Alike R e e' functions s)
    (hbody : ∀ f, a.function? name = some f → ∀ bindings,
      R (e { a with bindings } f.body) (e' { a with bindings } f.body)) :
    R (callWith e a name arguments) (callWith e' b name (Source.substArguments σ arguments)) := by
  have hfun : b.function? name = a.function? name := by
    simp only [Context.function?, hab.functions]
  unfold callWith
  rw [hfun]
  cases hname : a.function? name with
  | none => exact hR.of (.error (.notFound (.function name)))
  | some f =>
    refine hR.bind (evaluateAll_alike hR hf hab h) fun texts => hR.bind (hR.of _) fun bindings => ?_
    rw [← hab.toAgreeOn.withBindings bindings]
    exact hbody f hname bindings

theorem scriptWith_alike {arguments settings : List (String × Source)} {input : Option Source}
    (ha : ∀ s ∈ arguments.map Prod.snd, Alike R e e' functions s)
    (hs : ∀ s ∈ settings.map Prod.snd, Alike R e e' functions s)
    (hi : ∀ s ∈ input.toList, Alike R e e' functions s) (w : World) (command : String) :
    R (scriptWith e w a command arguments settings input)
      (scriptWith e' w b command (Source.substArguments σ arguments)
        (Source.substArguments σ settings) (input.map (Source.subst σ))) := by
  have hfind : findScript w b command = findScript w a command := by
    simp only [findScript, hab.scriptRoots]
  unfold scriptWith
  rw [hfind, ← hab.home]
  refine hR.bind (hR.of _) fun path => hR.bind (evaluateAll_alike hR hf hab ha) fun texts =>
    hR.bind (evaluateAll_alike hR hf hab hs) fun environment => ?_
  -- what the script does with its input is the same on both sides
  cases input with
  | none =>
    refine hR.bind (hR.of (.ok "")) fun text => ?_
    dsimp only
    split
    · exact hR.of _
    · exact hR.of (.error _)
  | some s =>
    refine hR.bind (hi s (by simp) σ a b hf hab) fun text => ?_
    dsimp only
    split
    · exact hR.of _
    · exact hR.of (.error _)

theorem includeWith_alike {edits : List (Edit Source)}
    (h : ∀ s ∈ edits.map Edit.source, Alike R e e' functions s) (w : World) (app : Option String)
    (source : String) :
    R (includeWith e w a app source edits)
      (includeWith e' w b app source (Source.substEdits σ edits)) := by
  have happ : appName b app = appName a app := by rw [appName, appName, hab.file]
  have hfind : findFile w b (appName b app) source = findFile w a (appName a app) source := by
    simp only [findFile, candidates, happ, hab.fileRoots]
  unfold includeWith
  rw [hfind]
  refine hR.bind (hR.of _) fun path => hR.bind (hR.of _) fun bytes => ?_
  cases edits with
  | nil => exact hR.of (.ok _)
  | cons first more =>
    obtain ⟨format, documents, key, s⟩ := first
    refine hR.bind (hR.of _) fun text => ?_
    have hdocs : ∀ f : Format, R
        (Evaluation.of (f.readAll text) >>= fun docs =>
          editAll e { a with file := path } (⟨format, documents, key, s⟩ :: more) docs >>= fun docs =>
            Evaluation.of (f.writeAll docs))
        (Evaluation.of (f.readAll text) >>= fun docs =>
          editAll e' { b with file := path }
            (Source.substEdits σ (⟨format, documents, key, s⟩ :: more)) docs >>= fun docs =>
            Evaluation.of (f.writeAll docs)) := by
      intro f
      refine hR.bind (hR.of _) fun docs => ?_
      have hfile : ({ a with file := path } : Context).functions = functions := hf
      exact hR.bind (editAll_alike hR hfile (hab.withFile path) h docs) fun docs => hR.of _
    cases format with
    | none => exact hR.bind (hR.of _) hdocs
    | some f => exact hR.bind (hR.of (.ok f)) hdocs

/-- One layer of a source and of a substitution into it, from the sources directly below and the
bodies of the functions that are called here. -/
theorem evaluateWith_alike {s : Source} (h : ∀ c ∈ s.children, Alike R e e' functions c)
    (hbody : ∀ name arguments f, s = .call name arguments → a.function? name = some f →
      ∀ bindings, R (e { a with bindings } f.body) (e' { a with bindings } f.body)) (w : World) :
    R (Source.evaluateWith e w a s) (Source.evaluateWith e' w b (s.subst σ)) := by
  cases s with
  | literal text => exact hR.of (.ok text)
  | «variable» name =>
    have hvalue := hab.value name
    cases hσ : σ name with
    | none =>
      have hname : a.binding? name = b.binding? name := by simpa [hσ] using hvalue
      simp only [Source.evaluateWith, Source.subst, hσ, hname]
      cases b.binding? name with
      | none => exact hR.of (.error (.notFound (.variable name)))
      | some text => exact hR.of (.ok text)
    | some text =>
      have hname : a.binding? name = some text := by simpa [hσ] using hvalue
      simp only [Source.evaluateWith, Source.subst, hσ, hname]
      exact hR.of (.ok text)
  | template text bindings =>
    exact hR.bind (evaluateAll_alike hR hf hab h) fun texts => hR.of (.ok _)
  | call name arguments =>
    exact callWith_alike hR hf hab h fun f hname => hbody name arguments f rfl hname
  | script command arguments settings input =>
    have ha : ∀ s ∈ arguments.map Prod.snd, Alike R e e' functions s :=
      fun s hs => h s (List.mem_append_left _ (List.mem_append_left _ hs))
    have hs : ∀ s ∈ settings.map Prod.snd, Alike R e e' functions s :=
      fun s hs => h s (List.mem_append_left _ (List.mem_append_right _ hs))
    have hi : ∀ s ∈ input.toList, Alike R e e' functions s :=
      fun s hs => h s (List.mem_append_right _ hs)
    have hscript := scriptWith_alike hR hf hab ha hs hi w command
    cases input <;> exact hscript
  | file app source edits => exact includeWith_alike hR hf hab h w app source
  | pipeline steps =>
    cases steps with
    | nil => exact hR.of (.error (.evaluation .emptyPipeline))
    | cons step more => exact pipelineWith_alike hR hf hab h ""
  | document selector fileSelector =>
    have hdoc : documentText a selector fileSelector = documentText b selector fileSelector := by
      simp only [documentText, hab.document]
    simp only [Source.evaluateWith, Source.subst, hdoc]
    exact hR.of _
  | environment name default => exact hR.of _
  | unset => exact hR.of (.error (.evaluation .noSource))

end

end FieldPatch

import FieldPatch.Proofs.Source.Scoping
import Mathlib

/-! Functions that can be ranked, each calling lower ones only, are evaluated to the end. The
depth that suffices is that of the source and, once each, of the bodies of the functions. -/

namespace FieldPatch

open Context (Fills)

namespace Source

mutual

/-- The names of the functions that are called, wherever the call stands. -/
def callees : Source → List String
  | .literal _ => []
  | .variable _ => []
  | .template _ bindings => calleesOfArguments bindings
  | .call name arguments => name :: calleesOfArguments arguments
  | .script _ arguments settings none => calleesOfArguments arguments ++ calleesOfArguments settings
  | .script _ arguments settings (some input) =>
    calleesOfArguments arguments ++ calleesOfArguments settings ++ callees input
  | .file _ _ edits => calleesOfEdits edits
  | .pipeline steps => calleesOfSteps steps
  | .document _ _ => []
  | .environment _ _ => []
  | .unset => []

def calleesOfArguments : List (String × Source) → List String
  | [] => []
  | (_, s) :: more => callees s ++ calleesOfArguments more

def calleesOfSteps : List (Source × Option String) → List String
  | [] => []
  | (s, _) :: more => callees s ++ calleesOfSteps more

def calleesOfEdits : List (Edit Source) → List String
  | [] => []
  | ⟨_, _, _, s⟩ :: more => callees s ++ calleesOfEdits more

end

def greatestDepth (sources : List Source) : Nat := sources.foldr (fun s d => max s.depth d) 0

theorem greatestDepth_append (l m : List Source) :
    greatestDepth (l ++ m) = max (greatestDepth l) (greatestDepth m) := by
  induction l with
  | nil => simp [greatestDepth]
  | cons s l ih =>
    show max s.depth (greatestDepth (l ++ m)) = _
    rw [ih, ← max_assoc]
    rfl

theorem le_greatestDepth {c : Source} {sources : List Source} (h : c ∈ sources) :
    c.depth ≤ greatestDepth sources := by
  induction sources with
  | nil => cases h
  | cons s sources ih =>
    rcases List.mem_cons.mp h with rfl | h
    · exact le_max_left _ _
    · exact (ih h).trans (le_max_right _ _)

theorem depthOfArguments_eq (arguments : List (String × Source)) :
    depthOfArguments arguments = greatestDepth (arguments.map Prod.snd) := by
  induction arguments with
  | nil => rfl
  | cons argument more ih => exact congrArg (max argument.2.depth) ih

theorem depthOfSteps_eq (steps : List (Source × Option String)) :
    depthOfSteps steps = greatestDepth (steps.map Prod.fst) := by
  induction steps with
  | nil => rfl
  | cons step more ih => exact congrArg (max step.1.depth) ih

theorem depthOfEdits_eq (edits : List (Edit Source)) :
    depthOfEdits edits = greatestDepth (edits.map Edit.source) := by
  induction edits with
  | nil => rfl
  | cons edit more ih => exact congrArg (max edit.source.depth) ih

theorem depth_eq_children (s : Source) : s.depth = greatestDepth s.children + 1 := by
  cases s with
  | template text bindings => exact congrArg (· + 1) (depthOfArguments_eq bindings)
  | call name arguments => exact congrArg (· + 1) (depthOfArguments_eq arguments)
  | script command arguments settings input =>
    cases input with
    | none =>
      simp only [depth, children, depthOfArguments_eq, greatestDepth_append]
      simp [greatestDepth]
    | some input =>
      simp only [depth, children, depthOfArguments_eq, greatestDepth_append]
      simp [greatestDepth, max_comm]
  | file app source edits => exact congrArg (· + 1) (depthOfEdits_eq edits)
  | pipeline steps => exact congrArg (· + 1) (depthOfSteps_eq steps)
  | _ => rfl

theorem calleesOfArguments_eq (arguments : List (String × Source)) :
    calleesOfArguments arguments = (arguments.map Prod.snd).flatMap callees := by
  induction arguments with
  | nil => rfl
  | cons argument more ih => exact congrArg (argument.2.callees ++ ·) ih

theorem calleesOfSteps_eq (steps : List (Source × Option String)) :
    calleesOfSteps steps = (steps.map Prod.fst).flatMap callees := by
  induction steps with
  | nil => rfl
  | cons step more ih => exact congrArg (step.1.callees ++ ·) ih

theorem calleesOfEdits_eq (edits : List (Edit Source)) :
    calleesOfEdits edits = (edits.map Edit.source).flatMap callees := by
  induction edits with
  | nil => rfl
  | cons edit more ih => exact congrArg (edit.source.callees ++ ·) ih

/-- The name of a function that is called right here. -/
def called : Source → List String
  | .call name _ => [name]
  | _ => []

theorem callees_eq_children (s : Source) : s.callees = s.called ++ s.children.flatMap callees := by
  cases s with
  | template text bindings => exact calleesOfArguments_eq bindings
  | call name arguments => exact congrArg (name :: ·) (calleesOfArguments_eq arguments)
  | script command arguments settings input =>
    cases input <;> simp [callees, called, children, calleesOfArguments_eq]
  | file app source edits => exact calleesOfEdits_eq edits
  | pipeline steps => exact calleesOfSteps_eq steps
  | _ => rfl

variable {s c : Source}

theorem depth_lt_of_child (h : c ∈ s.children) : c.depth < s.depth := by
  rw [depth_eq_children s]
  exact Nat.lt_succ_of_le (le_greatestDepth h)

theorem mem_callees_of_child (h : c ∈ s.children) {name : String} (hn : name ∈ c.callees) :
    name ∈ s.callees := by
  rw [callees_eq_children s]
  exact List.mem_append_right _ (List.mem_flatMap.mpr ⟨c, h, hn⟩)

end Source

/-- Functions of which each calls lower ones only, or names that no function has. -/
def Context.Ranked (ctx : Context) (rank : String → Nat) : Prop :=
  ∀ name f, ctx.function? name = some f →
    ∀ callee ∈ f.body.callees, ctx.function? callee ≠ none → rank callee < rank name

/-- How deep the bodies of the functions below a rank are, taken together. -/
def depthBelow (rank : String → Nat) (k : Nat) (functions : List Function) : Nat :=
  Source.depthOfFunctions (functions.filter fun f => rank f.name < k)

section

variable {rank : String → Nat} {j k : Nat} {f : Function} {functions : List Function}

theorem depthBelow_cons (rank : String → Nat) (k : Nat) (f : Function) (functions : List Function) :
    depthBelow rank k (f :: functions) =
      (if rank f.name < k then f.body.depth else 0) + depthBelow rank k functions := by
  by_cases hk : rank f.name < k
  · simp [depthBelow, hk, Source.depthOfFunctions]
  · simp [depthBelow, hk]

theorem depthBelow_le (rank : String → Nat) (k : Nat) (functions : List Function) :
    depthBelow rank k functions ≤ Source.depthOfFunctions functions := by
  induction functions with
  | nil => exact le_rfl
  | cons f functions ih =>
    rw [depthBelow_cons, Source.depthOfFunctions]
    split <;> omega

theorem depthBelow_mono (rank : String → Nat) (h : j ≤ k) (functions : List Function) :
    depthBelow rank j functions ≤ depthBelow rank k functions := by
  induction functions with
  | nil => exact le_rfl
  | cons f functions ih =>
    rw [depthBelow_cons, depthBelow_cons]
    split <;> split <;> omega

theorem depth_add_depthBelow_le (hf : f ∈ functions) (hk : rank f.name < k) :
    f.body.depth + depthBelow rank (rank f.name) functions ≤ depthBelow rank k functions := by
  induction functions with
  | nil => cases hf
  | cons g functions ih =>
    rw [depthBelow_cons, depthBelow_cons]
    rcases List.mem_cons.mp hf with rfl | hf
    · have hmono := depthBelow_mono rank hk.le functions
      rw [if_neg (Nat.lt_irrefl _), if_pos hk]
      omega
    · have hrest := ih hf
      split <;> split <;> omega

end

namespace Evaluation

/-- The depth suffices for `x`, whatever it is held against. -/
def Defined {α : Type} (x _ : Evaluation α) : Prop := x.run ≠ none

theorem defined_congruence : Congruence Defined where
  of _ := Option.some_ne_none _
  bind := by
    intro α β x y f g hx hf
    rcases x with _ | error | v
    · exact absurd rfl hx
    · exact Option.some_ne_none _
    · exact hf v

end Evaluation

namespace Source

variable {ctx : Context} {rank : String → Nat}

theorem evaluateAt_defined (hrank : ctx.Ranked rank) (w : World) (depth : Nat) (s : Source) (k : Nat)
    (hk : ∀ name ∈ s.callees, ctx.function? name ≠ none → rank name < k)
    (hdepth : s.depth + depthBelow rank k ctx.functions ≤ depth) :
    Alike Evaluation.Defined (evaluateAt w depth) (evaluateAt w depth) ctx.functions s := by
  induction depth generalizing s k with
  | zero =>
    rw [depth_eq_children] at hdepth
    omega
  | succ depth ih =>
    intro σ a b hf hab
    have hpos := depth_eq_children s
    refine evaluateWith_alike Evaluation.defined_congruence hf hab ?_ ?_ w
    · intro c hc
      have hlt := depth_lt_of_child hc
      exact ih c k (fun name hn => hk name (mem_callees_of_child hc hn)) (by omega)
    · -- the body is below the rank of its function, and so is all that it calls
      rintro name arguments f rfl hname bindings
      have hfun : ctx.function? name = some f := by
        rwa [Context.function?, ← hf]
      have hmem : f ∈ ctx.functions := List.mem_of_find?_eq_some hfun
      have hnm : f.name = name := by simpa using List.find?_some hfun
      have hlt : rank f.name < k := by
        rw [hnm]
        exact hk name (by simp [callees]) (by simp [hfun])
      have hroom := depth_add_depthBelow_le hmem hlt
      have hbody := ih f.body (rank f.name) (hnm ▸ hrank name f hfun) (by omega)
      exact hbody _ { a with bindings } _ hf (Fills.refl _)

/-- Without functions that call themselves, through others or not, every source comes to a text
or an error within a depth that only the source and the functions decide. -/
theorem ends_within_depth_of_ranked (h : ctx.Ranked rank) (w : World) (s : Source) :
    ∀ depth ≥ s.depthIn ctx, (evaluateAt w depth ctx s).run = some (s.evaluate w ctx) := by
  let k := (s.callees.map rank).sum + 1
  have hk : ∀ name ∈ s.callees, ctx.function? name ≠ none → rank name < k :=
    fun name hn _ => Nat.lt_succ_of_le (List.le_sum_of_mem (List.mem_map_of_mem hn))
  have hbound : s.depth + depthBelow rank k ctx.functions ≤ s.depthIn ctx :=
    Nat.add_le_add_left (depthBelow_le rank k ctx.functions) s.depth
  have hdefined := evaluateAt_defined h w (s.depthIn ctx) s k hk hbound _ _ _ rfl (Fills.refl ctx)
  obtain ⟨r, hr⟩ := Option.ne_none_iff_exists'.mp hdefined
  have hlimit : s.depthIn ctx ≤ s.depthLimit ctx := Nat.le_mul_of_pos_left _ (by decide)
  have hvalue : s.evaluate w ctx = r := by
    rw [evaluate, settle, run_mono hlimit hr]
  intro depth hd
  rw [hvalue]
  exact run_mono hd hr

/-- The tag of a version, and the image of an app, which is made with the tag. -/
def images : Context :=
  let tag : Function :=
    ⟨"tag", [⟨"version", true, none⟩], .template "v$version" [("version", .variable "version")]⟩
  let image : Function :=
    ⟨"image", [⟨"app", true, none⟩, ⟨"version", false, some "1.0"⟩],
      .template "registry/$app:$tag"
        [("app", .variable "app"), ("tag", .call "tag" [("version", .variable "version")])]⟩
  { Context.root "/srv" with functions := [tag, image] }

theorem images_ranked : images.Ranked fun name => if name = "image" then 1 else 0 := by
  intro name f hf callee hc _
  have hmem : f ∈ images.functions := List.mem_of_find?_eq_some hf
  have hname : f.name = name := by simpa using List.find?_some hf
  rcases List.mem_cons.mp hmem with rfl | hmem
  · cases hc
  · obtain rfl := List.mem_singleton.mp hmem
    obtain rfl : callee = "tag" := by simpa [callees, calleesOfArguments] using hc
    subst hname
    decide

theorem ends_within_depth_images :
    images.Ranked (fun name => if name = "image" then 1 else 0) ∧
    (Source.call "image" [("app", .literal "api")]).depthIn images = 7 ∧
    (evaluateAt bareWorld 7 images (.call "image" [("app", .literal "api")])).run =
      some (.ok "registry/api:v1.0") := by
  refine ⟨images_ranked, rfl, ?_⟩
  have hends := ends_within_depth_of_ranked images_ranked bareWorld
    (.call "image" [("app", .literal "api")]) 7 (by decide)
  exact hends.trans (by cbv)

end Source

end FieldPatch

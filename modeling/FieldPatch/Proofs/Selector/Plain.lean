import FieldPatch.Proofs.Selector.Descent

/-! Plain pipelines, made of fields and indices alone: running one is going down its steps,
whatever the paths between which they are divided. The selectors that are written through
directly are those of one such path. -/

namespace FieldPatch.Selector

/-- A component that names one child. A quoted key is a field like any other. -/
def Component.named? : Component → Option DirectStep
  | .field name => some (.field name)
  | .key name => some (.field name)
  | .index i => some (.index i)
  | .slice _ _ => none
  | .each => none

def Step.isPlain : Step → Bool
  | .path p => p.all fun k => k.named?.isSome
  | .select _ => false

def Step.trail : Step → List DirectStep
  | .path p => p.filterMap Component.named?
  | .select _ => []

/-- A pipeline of fields and indices, with no slice, no iteration and no condition. -/
def Expression.isPlain (e : Expression) : Bool := e.steps.all Step.isPlain

def Expression.trail (e : Expression) : List DirectStep := e.steps.flatMap Step.trail

def Cursor.below (c : Cursor) (l : Location) (u : Tree) : Cursor :=
  ⟨u, c.location.map (· ++ l)⟩

theorem Cursor.below_nil (c : Cursor) : c.below [] c.node = c := by
  obtain ⟨t, l⟩ := c
  cases l <;> simp [below]

theorem Cursor.child_below (c : Cursor) (s : Segment) (v u : Tree) (l : Location) :
    (c.child s v).below l u = c.below (s :: l) u := by
  simp [below, child, Function.comp_def]

theorem Cursor.below_below (c : Cursor) (l l' : Location) (v u : Tree) :
    (c.below l v).below l' u = c.below (l ++ l') u := by
  simp [below, Function.comp_def]

variable {source : String}

theorem follow_cons_named {k : Component} {d : DirectStep} (h : k.named? = some d)
    (next : Cursor → Outcome) (p : Path) (c : Cursor) :
    follow source next (k :: p) c =
      d.childOf c.node >>= fun r => follow source next p (c.child r.1 r.2) := by
  cases k with
  | field name =>
    cases h
    rw [← map_bind_eq, ← c.field_eq]
    rfl
  | key name =>
    cases h
    rw [← map_bind_eq, ← c.field_eq]
    rfl
  | index i =>
    cases h
    rw [← map_bind_eq, ← c.index_eq]
    rfl
  | slice first last => cases h
  | each => cases h

theorem follow_plain {p : Path} (hp : ∀ k ∈ p, k.named?.isSome = true) (next : Cursor → Outcome)
    (c : Cursor) :
    follow source next p c =
      descend (p.filterMap Component.named?) c.node >>= fun r => next (c.below r.1 r.2) := by
  induction p generalizing c with
  | nil =>
    show next c = next (c.below [] c.node)
    rw [c.below_nil]
  | cons k p ih =>
    obtain ⟨d, hd⟩ := Option.isSome_iff_exists.mp (hp k (by simp))
    have hp' : ∀ k ∈ p, k.named?.isSome = true := fun k hk => hp k (by simp [hk])
    rw [follow_cons_named hd, List.filterMap_cons_some hd]
    cases hc : d.childOf c.node with
    | error err =>
      rw [descend_cons_of_error hc]
      rfl
    | ok r =>
      rw [descend_cons_of_child hc, map_bind_eq]
      show follow source next p (c.child r.1 r.2) = _
      rw [ih hp']
      simp only [c.child_below]
      rfl

theorem run_plain {steps : List Step} (h : ∀ s ∈ steps, s.isPlain = true) (c : Cursor) :
    run source steps c =
      (descend (steps.flatMap Step.trail) c.node).map fun r => some (c.below r.1 r.2) := by
  induction steps generalizing c with
  | nil =>
    show Except.ok (some c) = Except.ok (some (c.below [] c.node))
    rw [c.below_nil]
  | cons s rest ih =>
    cases s with
    | select condition => simp [Step.isPlain] at h
    | path p =>
      have hp : ∀ k ∈ p, k.named?.isSome = true := by
        simpa [Step.isPlain] using h (.path p) (by simp)
      have hr := ih (fun s hs => h s (by simp [hs]))
      rw [List.flatMap_cons, descend_append]
      show follow source (run source rest) p c = _
      rw [follow_plain hp]
      show (descend (p.filterMap Component.named?) c.node >>= _) = _
      simp only [Step.trail, hr]
      cases descend (p.filterMap Component.named?) c.node with
      | error err => rfl
      | ok r =>
        show (descend (rest.flatMap Step.trail) r.2).map _ =
          ((descend (rest.flatMap Step.trail) r.2).map _).map _
        cases descend (rest.flatMap Step.trail) r.2 with
        | error err => rfl
        | ok q =>
          show Except.ok (some ((c.below r.1 r.2).below q.1 q.2)) = _
          rw [c.below_below]
          rfl

theorem locate_plain {e : Expression} (h : e.isPlain = true) (t : Tree) :
    locate t e = (descend e.trail t).map Prod.fst := by
  have hr : run e.source e.steps (.root t) = _ :=
    run_plain (by simpa [Expression.isPlain] using h) (.root t)
  simp only [locate, resolve, hr, Expression.trail]
  show _ = (descend (e.steps.flatMap Step.trail) t).map Prod.fst
  simp only [Cursor.root]
  cases descend (e.steps.flatMap Step.trail) t <;> rfl

def DirectStep.component : DirectStep → Component
  | .field name => .field name
  | .index i => .index i

def Expression.ofSteps (source : String) (ds : List DirectStep) : Expression :=
  ⟨source, [.path (ds.map DirectStep.component)]⟩

theorem DirectStep.ofComponent?_eq_some_iff {k : Component} {d : DirectStep} :
    DirectStep.ofComponent? k = some d ↔ k = d.component := by
  cases k <;> cases d <;> simp [ofComponent?, component]

theorem DirectStep.mapM_ofComponent? {p : Path} {ds : List DirectStep} :
    p.mapM DirectStep.ofComponent? = some ds ↔ p = ds.map DirectStep.component := by
  induction p generalizing ds with
  | nil => cases ds <;> simp
  | cons k p ih =>
    rw [List.mapM_cons]
    cases ds with
    | nil =>
      cases hk : ofComponent? k with
      | none => simp
      | some d => cases p.mapM ofComponent? <;> simp
    | cons d ds =>
      simp only [List.map_cons, List.cons.injEq, ← ih, ← ofComponent?_eq_some_iff]
      cases hk : ofComponent? k with
      | none => simp
      | some d' => cases p.mapM ofComponent? <;> simp

theorem each_notMem_components (ds : List DirectStep) :
    Component.each ∉ ds.map DirectStep.component := by
  intro h
  obtain ⟨d, -, hd⟩ := List.mem_map.mp h
  cases d <;> cases hd

theorem directPath?_eq_some_iff {e : Expression} {ds : List DirectStep} :
    e.directPath? = some ds ↔ e = .ofSteps e.source ds := by
  obtain ⟨source, steps⟩ := e
  simp only [Expression.directPath?, Expression.simplePath?, Expression.ofSteps,
    Expression.mk.injEq, true_and]
  split
  · next p =>
    simp only [List.cons.injEq, Step.path.injEq, and_true]
    split
    · next h =>
      simp only [Option.bind_none, reduceCtorEq, false_iff]
      rintro rfl
      exact each_notMem_components ds h
    · exact DirectStep.mapM_ofComponent?
  · next h =>
    simp only [Option.bind_none, reduceCtorEq, false_iff]
    intro he
    exact h _ he

theorem isPlain_ofSteps (source : String) (ds : List DirectStep) :
    (Expression.ofSteps source ds).isPlain = true := by
  have hd : ∀ d : DirectStep, d.component.named?.isSome = true := by
    intro d
    cases d <;> rfl
  simp [Expression.isPlain, Expression.ofSteps, Step.isPlain, hd]

theorem trail_ofSteps (source : String) (ds : List DirectStep) :
    (Expression.ofSteps source ds).trail = ds := by
  have hd : Component.named? ∘ DirectStep.component = some := by
    funext d
    cases d <;> rfl
  show (ds.map DirectStep.component).filterMap Component.named? ++ [] = ds
  rw [List.append_nil, List.filterMap_map, hd, List.filterMap_some]

theorem locate_ofSteps (source : String) (ds : List DirectStep) (t : Tree) :
    locate t (.ofSteps source ds) = (descend ds t).map Prod.fst := by
  rw [locate_plain (isPlain_ofSteps source ds), trail_ofSteps]

end FieldPatch.Selector

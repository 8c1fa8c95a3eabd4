import FieldPatch.Proofs.Selector.Language
import FieldPatch.Proofs.Selector.Set
import FieldPatch.Proofs.Selector.Splitting
import FieldPatch.Proofs.Selector.Wide

/-! How a selector that was parsed can fail. Reading and writing fail only where the selector leads
nowhere, but for writes to what a slice makes. Once an array is iterated, or a condition drops the
node, the error names no place any more but the selector as a whole. -/

namespace FieldPatch

/-- Why a write fails that does not come to a slice. -/
inductive Error.Unwritable (source : String) : Error → Prop
  | nowhere {err : Error} (h : err.Nowhere source) : Unwritable source err
  | notScalar {found : Kind} (h : found = .array ∨ found = .map) :
    Unwritable source (.typeMismatch "scalar" found)

theorem Error.Unwritable.isUnresolved {source : String} {err : Error} (h : err.Unwritable source) :
    err.isUnresolved = true := by
  cases h with
  | nowhere h => exact h.isUnresolved
  | notScalar _ => rfl

theorem Tree.overwrite_unwritable (source text : String) (t : Tree) :
    FailsOnly (Error.Unwritable source) (t.overwrite text) := by
  unfold overwrite
  split
  · next hs =>
    refine .error (.notScalar ?_)
    cases t with
    | array xs => exact .inl rfl
    | map es => exact .inr rfl
    | _ => cases hs
  · exact .ok _

namespace Selector

variable {source text : String} {t : Tree} {e : Expression}

def Step.iterates : Step → Bool
  | .path p => decide (Component.each ∈ p)
  | .select _ => false

section

variable {R : Outcome → Prop} {next next' : Cursor → Outcome} {d : Cursor}

/-- What holds of all that is done at the end of a way holds of the whole, if it holds of
iterations, whatever is done with their elements. -/
theorem follow_inherits {p : Path}
    (hfirst : Component.each ∈ p → ∀ search cs, R (firstThrough source search cs))
    (hn : ∀ c, next c = .ok (some d) → R (next' c)) (c : Cursor)
    (h : follow source next p c = .ok (some d)) : R (follow source next' p c) := by
  induction p generalizing c with
  | nil => exact hn c h
  | cons k p ih =>
    have ih := ih fun hp => hfirst (List.mem_cons_of_mem k hp)
    have hstep : ∀ {r : Except Error Cursor}, r >>= follow source next p = .ok (some d) →
        R (r >>= follow source next' p) := by
      intro r hr
      obtain ⟨c', rfl, hc'⟩ := ok_of_bind hr
      exact ih c' hc'
    cases k with
    | field name => exact hstep h
    | key name => exact hstep h
    | index i => exact hstep h
    | slice first last => exact hstep h
    | each =>
      obtain ⟨ds, hds, -⟩ := ok_of_bind h
      simp only [follow, hds]
      exact hfirst List.mem_cons_self (follow source next' p) ds

theorem run_inherits {before steps steps' : List Step}
    (hfirst : before.any Step.iterates = true → ∀ search cs, R (firstThrough source search cs))
    (hn : ∀ c, run source steps c = .ok (some d) → R (run source steps' c)) (c : Cursor)
    (h : run source (before ++ steps) c = .ok (some d)) : R (run source (before ++ steps') c) := by
  induction before generalizing c with
  | nil => exact hn c h
  | cons s before ih =>
    have ih := ih fun hb => hfirst (by simp [hb])
    cases s with
    | path p => exact follow_inherits (fun hp => hfirst (by simp [Step.iterates, hp])) ih c h
    | select condition =>
      simp only [List.cons_append, run] at h ⊢
      split at h
      · next hc =>
        rw [if_pos hc]
        exact ih c h
      · cases h

end

theorem exists_run_of_evaluate {u : Tree} (h : evaluate t e = .ok u) :
    ∃ d, run e.source e.steps (.root t) = .ok (some d) ∧ d.node = u := by
  obtain ⟨d, hd, hu⟩ := ok_of_map h
  exact ⟨d, resolve_eq_ok_iff.mp hd, hu⟩

/-- Behind an array that is iterated all errors are the same. -/
theorem evaluate_behind_iteration {before after : List Step} {p q : Path} {xs : List Tree}
    (hsteps : e.steps = before ++ .path (p ++ .each :: q) :: after)
    (h : evaluate t ⟨e.source, before ++ [.path p]⟩ = .ok (.array xs)) :
    FailsOnly (· = .noMatch e.source) (evaluate t e) := by
  obtain ⟨d, hd, hx⟩ := exists_run_of_evaluate h
  have hfirst := firstThrough_fails e.source
  have hend : ∀ c, run e.source [] c = .ok (some d) → FailsOnly (· = .noMatch e.source)
      (follow e.source (run e.source after) (.each :: q) c) := by
    intro c hc
    obtain rfl : c = d := by simpa [run] using hc
    have hall : c.elements = .ok (c.elementsFrom 0 xs) := by simp only [Cursor.elements, hx]
    simp only [follow, hall]
    exact hfirst _ _
  have hstep : ∀ c, run e.source [.path p] c = .ok (some d) → FailsOnly (· = .noMatch e.source)
      (run e.source (.path (p ++ .each :: q) :: after) c) := by
    intro c hc
    simp only [run, follow_append]
    exact follow_inherits (fun _ => hfirst) hend c hc
  refine evaluate_fails rfl ?_
  rw [hsteps]
  exact run_inherits (fun _ => hfirst) hstep _ hd

/-- A condition that drops the only node there is leaves nothing that the selector leads to. -/
theorem evaluate_of_filtered {before after : List Step} {condition : Comparison} {u : Tree}
    (hsteps : e.steps = before ++ .select condition :: after)
    (hb : before.any Step.iterates = false) (h : evaluate t ⟨e.source, before⟩ = .ok u)
    (hk : condition.keeps u = false) : evaluate t e = .error (.noMatch e.source) := by
  obtain ⟨d, hd, rfl⟩ := exists_run_of_evaluate h
  have hend : ∀ c, run e.source [] c = .ok (some d) →
      run e.source (.select condition :: after) c = .ok none := by
    intro c hc
    obtain rfl : c = d := by simpa [run] using hc
    simp only [run, holds_eq_keeps, hk, Bool.false_eq_true, if_false]
  have hr : run e.source e.steps (.root t) = .ok none := by
    rw [hsteps]
    refine run_inherits (R := (· = .ok none)) (by simp [hb]) hend _ ?_
    simpa using hd
  simp only [evaluate, resolve, hr]
  rfl

theorem locate_of_evaluate_error {err : Error} (h : evaluate t e = .error err) :
    locate t e = .error err := by
  cases hc : resolve t e with
  | error err' =>
    obtain rfl := Except.error.inj ((evaluate_of_resolve_error hc).symm.trans h)
    exact locate_of_resolve_error hc
  | ok c => simp [evaluate_of_resolve hc] at h

theorem slices_ofSteps (source : String) (ds : List DirectStep) :
    (Expression.ofSteps source ds).slices = false := by
  have hd : ∀ d : DirectStep, d.component.isSlice = false := by
    intro d
    cases d <;> rfl
  simp [Expression.slices, Expression.ofSteps, Step.slices, hd]

theorem set_of_slices (h : e.slices = true) : set text e t = writeLocated text e t := by
  cases hd : e.directPath? with
  | none => simp only [set, hd]
  | some ds =>
    rw [directPath?_eq_some_iff.mp hd, slices_ofSteps] at h
    cases h

theorem set_of_locate_error (text : String) {err : Error} (h : locate t e = .error err) :
    set text e t = .error err ∨ ∃ r, set text e t = .ok r := by
  have hw : writeLocated text e t = .error err := by
    simp only [writeLocated, h]
    rfl
  cases hd : e.directPath? with
  | none =>
    refine .inl ?_
    simp only [set, hd]
    exact hw
  | some ds =>
    have he := directPath?_eq_some_iff.mp hd
    by_cases ha : ∃ l es name, AddsField e.source t ds l es name
    · obtain ⟨l, es, name, ha⟩ := ha
      rw [he, set_addsField ha]
      exact .inr ⟨_, rfl⟩
    · rw [he, set_ofSteps_eq_writeLocated ha, ← he]
      exact .inl hw

theorem set_unwritable (hs : e.slices = false) :
    FailsOnly (Error.Unwritable e.source) (set text e t) := by
  intro err h
  cases hu : evaluate t e with
  | ok u =>
    obtain ⟨l, hl, hg⟩ := locate_of_evaluate hu hs
    rw [set_of_locate hl hg] at h
    cases ho : u.overwrite text with
    | error err' =>
      rw [ho] at h
      obtain rfl : err' = err := Except.error.inj h
      exact u.overwrite_unwritable e.source text _ ho
    | ok r =>
      rw [ho] at h
      cases h
  | error err' =>
    rcases set_of_locate_error text (locate_of_evaluate_error hu) with hset | ⟨r, hset⟩
    · obtain rfl : err' = err := Except.error.inj (hset.symm.trans h)
      exact .nowhere (evaluate_nowhere t e _ hu)
    · rw [hset] at h
      cases h

theorem source_of_parse {selector : String} (h : parse selector = .ok e) : e.source = selector := by
  obtain ⟨d, -, rfl⟩ := parse_sound h
  rfl

/-- How reading and writing with a selector can fail. An iteration over an array has been entered
as soon as what stands before some `[]` leads to an array. -/
structure FailsByLeadingNowhere (selector : String) (e : Expression) (t : Tree) : Prop where
  reading : ∀ err, evaluate t e = .error err → err.Nowhere selector ∧ err.isUnresolved = true
  behindIteration : ∀ before p q after xs, e.steps = before ++ .path (p ++ .each :: q) :: after →
    evaluate t ⟨selector, before ++ [.path p]⟩ = .ok (.array xs) →
    ∀ err, evaluate t e = .error err → err = .noMatch selector
  filtered : ∀ before condition after u, e.steps = before ++ .select condition :: after →
    before.any Step.iterates = false → evaluate t ⟨selector, before⟩ = .ok u →
    condition.keeps u = false → evaluate t e = .error (.noMatch selector)
  writing : e.slices = false → ∀ text err, set text e t = .error err →
    err.Unwritable selector ∧ err.isUnresolved = true
  /-- What a slice makes has no place in the document. -/
  writingSlices : e.slices = true → ∀ text, (∀ u, evaluate t e = .ok u →
      set text e t = .error (.evaluation (.notALocation selector))) ∧
    ∀ err, evaluate t e = .error err → set text e t = .error err
  /-- No call is run but those of `select` with one comparison. -/
  calls : ∀ unsupported, runWide selector unsupported (e.steps.map Step.wide) (.root t) =
    run selector e.steps (.root t)
  /-- Nothing is written through directly but fields and indices. -/
  components : ∀ text refused, setWide text refused e t = set text e t

/-- A selector that was parsed fails only by leading nowhere: at a node that does not have what a
component asks for, or, once an array is iterated or a condition has dropped the node, as a whole.
Writing fails by that too, or for lack of a scalar, and through a slice that leads somewhere for
lack of a place. No step is run that the parser could not have read. -/
theorem parsed_fails_by_leading_nowhere {selector : String} (h : parse selector = .ok e)
    (t : Tree) : FailsByLeadingNowhere selector e t := by
  obtain rfl : e.source = selector := source_of_parse h
  constructor
  · intro err he
    have hn := evaluate_nowhere t e err he
    exact ⟨hn, hn.isUnresolved⟩
  · intro before p q after xs hsteps hx
    exact evaluate_behind_iteration hsteps hx
  · intro before condition after u hsteps hb hu hk
    exact evaluate_of_filtered hsteps hb hu hk
  · intro hs text err he
    have hn := set_unwritable hs err he
    exact ⟨hn, hn.isUnresolved⟩
  · intro hs text
    rw [set_of_slices hs]
    constructor
    · intro u hu
      simp only [writeLocated, locate_of_slices hu hs]
      rfl
    · intro err he
      simp only [writeLocated, locate_of_evaluate_error he]
      rfl
  · exact fun unsupported => runWide_map_wide e.source unsupported e.steps (.root t)
  · exact fun text refused => setWide_eq_set text refused e t

def portsOfApi : Expression :=
  ⟨".pods[] | select(.name == \"api\") | .ports[0:1] | [-1]",
    [.path [.field "pods", .each], .select ⟨[.field "name"], .equal, .text "api"⟩,
      .path [.field "ports", .slice (some 0) (some 1)], .path [.index (-1)]]⟩

theorem parsed_fails_by_leading_nowhere_pods :
    parse portsOfApi.source = .ok portsOfApi ∧
      FailsByLeadingNowhere portsOfApi.source portsOfApi (.map [("pods", .array [.null])]) := by
  have hp : parse portsOfApi.source = .ok portsOfApi := by decide +kernel
  exact ⟨hp, parsed_fails_by_leading_nowhere hp _⟩

end Selector

end FieldPatch

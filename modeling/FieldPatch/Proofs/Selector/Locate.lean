import FieldPatch.Proofs.Selector.Trace

/-! Evaluating and locating end at the same node. The location that a cursor carries leads to
its node from the moves on, and is lost with the first slice. -/

namespace FieldPatch.Selector

/-- The location of a cursor, if it has one, is where its node is in `t`. -/
def Cursor.Within (t : Tree) (c : Cursor) : Prop :=
  ∀ l, c.location = some l → t.get? l = some c.node

theorem Cursor.root_within (t : Tree) : (Cursor.root t).Within t := by
  intro l h
  cases h
  rfl

theorem Cursor.Within.child {t v : Tree} {c : Cursor} {s : Segment} (h : c.Within t)
    (hv : c.node.child? s = some v) : (c.child s v).Within t := by
  intro l hl
  obtain ⟨l', hl', rfl⟩ := Option.map_eq_some_iff.mp hl
  rw [Tree.get?_append, h l' hl', Option.bind_some, Tree.get?_cons hv]
  rfl

theorem Moves.within {t : Tree} {c d : Cursor} {k : Component} (h : Moves c k d)
    (hc : c.Within t) : d.Within t := by
  rcases h.child_or_slice with ⟨-, s, v, hv, rfl⟩ | ⟨-, hd⟩
  · exact hc.child hv
  · intro l hl
    simp [hd] at hl

theorem Moves.location_eq_none_iff {c d : Cursor} {k : Component} (h : Moves c k d) :
    d.location = none ↔ c.location = none ∨ k.isSlice = true := by
  rcases h.child_or_slice with ⟨hk, s, v, -, rfl⟩ | ⟨hk, hd⟩
  · simp [hk, Cursor.child]
  · simp [hk, hd]

theorem Follows.within {t : Tree} {c d : Cursor} {p : Path} (h : Follows p c d)
    (hc : c.Within t) : d.Within t := by
  induction h with
  | nil => exact hc
  | cons h _ ih => exact ih (h.within hc)

theorem Follows.location_eq_none_iff {c d : Cursor} {p : Path} (h : Follows p c d) :
    d.location = none ↔ c.location = none ∨ p.any Component.isSlice = true := by
  induction h with
  | nil => simp
  | cons h _ ih =>
    rw [ih, h.location_eq_none_iff, List.any_cons, Bool.or_eq_true, or_assoc]

theorem Runs.within {t : Tree} {source : String} {c d : Cursor} {steps : List Step}
    (h : Runs source steps c d) (hc : c.Within t) : d.Within t := by
  induction h with
  | nil => exact hc
  | path h _ ih => exact ih (h.within hc)
  | select _ _ ih => exact ih hc

/-- Whether a step is a path with a slice. The path inside a condition does not count. -/
def Step.slices : Step → Bool
  | .path p => p.any Component.isSlice
  | .select _ => false

def Expression.slices (e : Expression) : Bool := e.steps.any Step.slices

theorem Runs.location_eq_none_iff {source : String} {c d : Cursor} {steps : List Step}
    (h : Runs source steps c d) :
    d.location = none ↔ c.location = none ∨ steps.any Step.slices = true := by
  induction h with
  | nil => simp
  | path h _ ih =>
    rw [ih, h.location_eq_none_iff, List.any_cons, Bool.or_eq_true, or_assoc]
    rfl
  | select _ _ ih => simp [ih, Step.slices]

theorem located_of_resolve {t : Tree} {e : Expression} {c : Cursor} (h : resolve t e = .ok c) :
    c.Within t ∧ (c.location = none ↔ e.slices = true) := by
  have hr := runs_of_run (resolve_eq_ok_iff.mp h)
  refine ⟨hr.within (Cursor.root_within t), hr.location_eq_none_iff.trans ?_⟩
  simp [Cursor.root, Expression.slices]

theorem evaluate_of_resolve {t : Tree} {e : Expression} {c : Cursor} (h : resolve t e = .ok c) :
    evaluate t e = .ok c.node := by
  simp only [evaluate, h]
  rfl

theorem evaluate_of_resolve_error {t : Tree} {e : Expression} {err : Error}
    (h : resolve t e = .error err) : evaluate t e = .error err := by
  simp only [evaluate, h]
  rfl

theorem locate_of_resolve_error {t : Tree} {e : Expression} {err : Error}
    (h : resolve t e = .error err) : locate t e = .error err := by
  simp only [locate, h]
  rfl

theorem locate_of_evaluate {t u : Tree} {e : Expression} (h : evaluate t e = .ok u)
    (hs : e.slices = false) : ∃ l, locate t e = .ok l ∧ t.get? l = some u := by
  obtain ⟨c, hc, rfl⟩ := ok_of_map h
  obtain ⟨hw, hn⟩ := located_of_resolve hc
  cases hl : c.location with
  | none => simp [hn.mp hl] at hs
  | some l => exact ⟨l, by simp only [locate, hc, bind, Except.bind, hl]; rfl, hw l hl⟩

theorem locate_of_slices {t u : Tree} {e : Expression} (h : evaluate t e = .ok u)
    (hs : e.slices = true) : locate t e = .error (.evaluation (.notALocation e.source)) := by
  obtain ⟨c, hc, rfl⟩ := ok_of_map h
  have hl := (located_of_resolve hc).2.mpr hs
  simp only [locate, hc, bind, Except.bind, hl]
  rfl

theorem evaluate_of_locate {t : Tree} {e : Expression} {l : Location} (h : locate t e = .ok l) :
    ∃ u, evaluate t e = .ok u ∧ t.get? l = some u ∧ e.slices = false := by
  cases hc : resolve t e with
  | error err => simp [locate_of_resolve_error hc] at h
  | ok c =>
    have hu := evaluate_of_resolve hc
    cases hs : e.slices with
    | true => simp [locate_of_slices hu hs] at h
    | false =>
      obtain ⟨l', hl', hg⟩ := locate_of_evaluate hu hs
      obtain rfl : l' = l := Except.ok.inj (hl'.symm.trans h)
      exact ⟨c.node, hu, hg, rfl⟩

/-- Evaluating and locating agree: on the node, on the errors, and on success but for
slices. A write at the location that was found fails only if writing over its node does. -/
theorem locate_agrees_with_evaluate (t : Tree) (e : Expression) :
    (∀ l, locate t e = .ok l → ∃ u, evaluate t e = .ok u ∧ t.get? l = some u ∧
      ∀ write : Tree → Written,
        t.writeAt write l = (write u).map fun r => (t.replaceAt l r.1, r.2)) ∧
    ((∃ l, locate t e = .ok l) ↔ (∃ u, evaluate t e = .ok u) ∧ e.slices = false) ∧
    (∀ err, evaluate t e = .error err → locate t e = .error err) ∧
    (∀ u, evaluate t e = .ok u → e.slices = true →
      locate t e = .error (.evaluation (.notALocation e.source))) := by
  refine ⟨?_, ⟨?_, ?_⟩, ?_, ?_⟩
  · intro l h
    obtain ⟨u, hu, hl, -⟩ := evaluate_of_locate h
    exact ⟨u, hu, hl, fun write => Tree.writeAt_of_get? hl write⟩
  · rintro ⟨l, h⟩
    obtain ⟨u, hu, -, hs⟩ := evaluate_of_locate h
    exact ⟨⟨u, hu⟩, hs⟩
  · rintro ⟨⟨u, hu⟩, hs⟩
    obtain ⟨l, hl, -⟩ := locate_of_evaluate hu hs
    exact ⟨l, hl⟩
  · intro err h
    cases hc : resolve t e with
    | error err' =>
      obtain rfl := Except.error.inj ((evaluate_of_resolve_error hc).symm.trans h)
      exact locate_of_resolve_error hc
    | ok c => simp [evaluate_of_resolve hc] at h
  · intro u hu hs
    exact locate_of_slices hu hs

end FieldPatch.Selector

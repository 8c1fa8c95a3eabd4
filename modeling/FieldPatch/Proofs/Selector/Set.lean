import FieldPatch.Proofs.Selector.Direct
import FieldPatch.Proofs.Selector.Locate
import FieldPatch.Proofs.Tree.Frame

/-! Everything a write can do to a tree, whichever way it takes to the selected node. -/

namespace FieldPatch.Selector

variable {text : String} {e : Expression} {t t' : Tree} {changed : Bool}

theorem writeLocated_cases (h : writeLocated text e t = .ok (t', changed)) :
    ∃ l u u', locate t e = .ok l ∧ t.get? l = some u ∧ u.overwrite text = .ok (u', changed) ∧
      t' = t.replaceAt l u' := by
  obtain ⟨l, hl, hw⟩ := ok_of_bind h
  obtain ⟨u, -, hu, -⟩ := evaluate_of_locate hl
  rw [Tree.writeAt_of_get? hu] at hw
  obtain ⟨⟨u', c⟩, ho, he⟩ := ok_of_map hw
  cases he
  exact ⟨l, u, u', hl, hu, ho, rfl⟩

/-- Everything a write that succeeds does: it writes over the located node, or it adds a last
field. -/
theorem set_cases (h : set text e t = .ok (t', changed)) :
    (∃ l u u', locate t e = .ok l ∧ t.get? l = some u ∧ u.overwrite text = .ok (u', changed) ∧
      t' = t.replaceAt l u') ∨
    ∃ ds l es name, e = .ofSteps e.source ds ∧ AddsField e.source t ds l es name ∧
      t' = t.replaceAt l (.map (es ++ [(name, .text text)])) ∧ changed = true := by
  cases hd : e.directPath? with
  | none =>
    simp only [set, hd] at h
    exact .inl (writeLocated_cases h)
  | some ds =>
    have he := directPath?_eq_some_iff.mp hd
    by_cases ha : ∃ l es name, AddsField e.source t ds l es name
    · obtain ⟨l, es, name, ha⟩ := ha
      rw [he, set_addsField ha] at h
      cases h
      exact .inr ⟨ds, l, es, name, he, ha, rfl, rfl⟩
    · rw [he, set_ofSteps_eq_writeLocated ha, ← he] at h
      exact .inl (writeLocated_cases h)

theorem set_of_locate {l : Location} {u : Tree} (h : locate t e = .ok l) (hu : t.get? l = some u) :
    set text e t = (u.overwrite text).map fun r => (t.replaceAt l r.1, r.2) := by
  rw [← writeLocated_of_locate h hu]
  cases hd : e.directPath? with
  | none => simp only [set, hd]
  | some ds =>
    have he := directPath?_eq_some_iff.mp hd
    rw [he]
    apply set_ofSteps_eq_writeLocated
    rintro ⟨l', es, name, ha⟩
    rw [he, locate_addsField ha] at h
    cases h

/-- A selector of fields and indices still leads to the place that was written. -/
theorem locate_replaceAt {l : Location} (hp : e.isPlain = true) (h : locate t e = .ok l) (u : Tree) :
    locate (t.replaceAt l u) e = .ok l := by
  rw [locate_plain hp] at h
  obtain ⟨⟨l', v⟩, hd, rfl⟩ := ok_of_map h
  rw [locate_plain hp, descend_replaceAt hd]
  rfl

theorem get?_addsField {source name : String} {ds : List DirectStep} {l : Location}
    {es : Entries Tree} (ha : AddsField source t ds l es name) : t.get? (l ++ [.key name]) = none := by
  have hc : (Tree.map es).child? (.key name) = none := ha.missing
  rw [Tree.get?_append, ha.parent, Option.bind_some]
  exact Tree.get?_cons_of_child?_eq_none hc []

theorem locate_added {source name : String} {ds : List DirectStep} {l : Location}
    {es : Entries Tree} (ha : AddsField source t ds l es name) (u : Tree) :
    locate (t.replaceAt l (.map (es ++ [(name, u)]))) (.ofSteps source ds) =
        .ok (l ++ [.key name]) ∧
      (t.replaceAt l (.map (es ++ [(name, u)]))).get? (l ++ [.key name]) = some u := by
  obtain ⟨parents, rfl, hd, hn⟩ := addsField_iff.mp ha
  have hput := Entries.put_eq_append (Entries.get?_eq_none_iff.mp hn) u
  have hc : (DirectStep.field name).childOf (.map (es ++ [(name, u)])) = .ok (.key name, u) := by
    simp [DirectStep.childOf, ← hput]
  have hd' : descend (parents ++ [.field name]) (t.replaceAt l (.map (es ++ [(name, u)]))) =
      .ok (l ++ [.key name], u) := by
    rw [descend_append, descend_replaceAt hd]
    show (descend [.field name] (.map _)).map _ = _
    rw [descend_cons_of_child hc]
    rfl
  rw [locate_ofSteps, hd']
  exact ⟨rfl, get?_of_descend hd'⟩

end FieldPatch.Selector

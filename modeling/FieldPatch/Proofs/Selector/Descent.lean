import FieldPatch.Proofs.Except
import FieldPatch.Proofs.Tree.Replace
import FieldPatch.Selector.Write

/-! Going down a tree by fields and indices only. Such a way is determined: it leads to one
node or ends in one error, and what is put in the place of that node does not move it. -/

namespace FieldPatch.Selector

/-- The child that a field or an index names, and the segment that leads to it. -/
def DirectStep.childOf (t : Tree) : DirectStep → Except Error (Segment × Tree)
  | .field name =>
    match t with
    | .map es =>
      match Entries.get? name es with
      | some v => .ok (.key name, v)
      | none => .error (.notFound (.field name))
    | other => .error (.typeMismatch "map" other.kind)
  | .index i =>
    match t with
    | .array xs => do
      let n ← resolveIndex i xs.length
      match xs[n]? with
      | some v => return (.index n, v)
      | none => throw (.indexOutOfBounds i xs.length)
    | other => .error (.typeMismatch "array" other.kind)

theorem childOf_field_ok {t v : Tree} {name : String} {s : Segment}
    (h : (DirectStep.field name).childOf t = .ok (s, v)) :
    ∃ es, t = .map es ∧ s = .key name ∧ Entries.get? name es = some v := by
  cases t with
  | map es =>
    simp only [DirectStep.childOf] at h
    cases hv : Entries.get? name es with
    | none => simp [hv] at h
    | some w =>
      rw [hv] at h
      cases h
      exact ⟨es, rfl, rfl, hv⟩
  | _ => simp [DirectStep.childOf] at h

theorem childOf_index_ok {t v : Tree} {i : Int} {s : Segment}
    (h : (DirectStep.index i).childOf t = .ok (s, v)) :
    ∃ xs n, t = .array xs ∧ s = .index n ∧ resolveIndex i xs.length = .ok n ∧ xs[n]? = some v := by
  cases t with
  | array xs =>
    simp only [DirectStep.childOf] at h
    obtain ⟨n, hn, h⟩ := ok_of_bind h
    cases hv : xs[n]? with
    | none => simp [hv] at h
    | some w =>
      rw [hv] at h
      cases h
      exact ⟨xs, n, rfl, rfl, hn, hv⟩
  | _ => simp [DirectStep.childOf] at h

theorem childOf_index_of_getElem? {xs : List Tree} {v : Tree} {i : Int} {n : Nat}
    (hn : resolveIndex i xs.length = .ok n) (hv : xs[n]? = some v) :
    (DirectStep.index i).childOf (.array xs) = .ok (.index n, v) := by
  simp only [DirectStep.childOf, hn, bind, Except.bind, hv]
  rfl

theorem child?_of_childOf {t v : Tree} {d : DirectStep} {s : Segment}
    (h : d.childOf t = .ok (s, v)) : t.child? s = some v := by
  cases d with
  | field name =>
    obtain ⟨es, rfl, rfl, hv⟩ := childOf_field_ok h
    exact hv
  | index i =>
    obtain ⟨xs, n, rfl, rfl, -, hv⟩ := childOf_index_ok h
    exact hv

theorem childOf_setChild {t v : Tree} {d : DirectStep} {s : Segment}
    (h : d.childOf t = .ok (s, v)) (u : Tree) : d.childOf (t.setChild s u) = .ok (s, u) := by
  have hu := Tree.child?_setChild_self (child?_of_childOf h) u
  cases d with
  | field name =>
    obtain ⟨es, rfl, rfl, -⟩ := childOf_field_ok h
    simp [DirectStep.childOf, Tree.setChild]
  | index i =>
    obtain ⟨xs, n, rfl, rfl, hn, -⟩ := childOf_index_ok h
    exact childOf_index_of_getElem? (by simpa using hn) hu

theorem Cursor.field_eq (c : Cursor) (name : String) :
    c.field name = ((DirectStep.field name).childOf c.node).map fun r => c.child r.1 r.2 := by
  obtain ⟨t, l⟩ := c
  cases t with
  | map es =>
    simp only [Cursor.field, DirectStep.childOf]
    cases Entries.get? name es <;> rfl
  | _ => rfl

theorem Cursor.index_eq (c : Cursor) (i : Int) :
    c.index i = ((DirectStep.index i).childOf c.node).map fun r => c.child r.1 r.2 := by
  obtain ⟨t, l⟩ := c
  cases t with
  | array xs =>
    simp only [Cursor.index, DirectStep.childOf]
    cases resolveIndex i xs.length with
    | error err => rfl
    | ok n =>
      simp only [bind, Except.bind]
      cases xs[n]? <;> rfl
  | _ => rfl

/-- Where fields and indices lead, and the node there. -/
def descend : List DirectStep → Tree → Except Error (Location × Tree)
  | [], t => .ok ([], t)
  | d :: ds, t => do
    let r ← d.childOf t
    let q ← descend ds r.2
    return (r.1 :: q.1, q.2)

theorem descend_cons_of_child {t v : Tree} {d : DirectStep} {s : Segment}
    (h : d.childOf t = .ok (s, v)) (ds : List DirectStep) :
    descend (d :: ds) t = (descend ds v).map fun q => (s :: q.1, q.2) := by
  simp only [descend, h]
  show (descend ds v >>= fun q => .ok (s :: q.1, q.2)) = _
  cases descend ds v <;> rfl

theorem descend_cons_of_error {t : Tree} {d : DirectStep} {err : Error}
    (h : d.childOf t = .error err) (ds : List DirectStep) :
    descend (d :: ds) t = .error err := by
  simp only [descend, h]
  rfl

theorem descend_cons_ok {t u : Tree} {d : DirectStep} {ds : List DirectStep} {l : Location}
    (h : descend (d :: ds) t = .ok (l, u)) :
    ∃ s v l', d.childOf t = .ok (s, v) ∧ descend ds v = .ok (l', u) ∧ l = s :: l' := by
  cases hc : d.childOf t with
  | error err => simp [descend_cons_of_error hc] at h
  | ok r =>
    rw [descend_cons_of_child hc] at h
    obtain ⟨q, hq, he⟩ := ok_of_map h
    cases he
    exact ⟨r.1, r.2, q.1, rfl, hq, rfl⟩

theorem get?_of_descend {t u : Tree} {ds : List DirectStep} {l : Location}
    (h : descend ds t = .ok (l, u)) : t.get? l = some u := by
  induction ds generalizing t l with
  | nil => cases h; rfl
  | cons d ds ih =>
    obtain ⟨s, v, l', hc, hd, rfl⟩ := descend_cons_ok h
    rw [Tree.get?_cons (child?_of_childOf hc)]
    exact ih hd

theorem descend_replaceAt {t u : Tree} {ds : List DirectStep} {l : Location}
    (h : descend ds t = .ok (l, u)) (u' : Tree) :
    descend ds (t.replaceAt l u') = .ok (l, u') := by
  induction ds generalizing t l with
  | nil => cases h; rfl
  | cons d ds ih =>
    obtain ⟨s, v, l', hc, hd, rfl⟩ := descend_cons_ok h
    rw [Tree.replaceAt_cons (child?_of_childOf hc),
      descend_cons_of_child (childOf_setChild hc _), ih hd]
    rfl

theorem descend_append (ds ds' : List DirectStep) (t : Tree) :
    descend (ds ++ ds') t =
      descend ds t >>= fun r => (descend ds' r.2).map fun q => (r.1 ++ q.1, q.2) := by
  induction ds generalizing t with
  | nil =>
    show descend ds' t = (descend ds' t).map fun q => ([] ++ q.1, q.2)
    cases descend ds' t <;> rfl
  | cons d ds ih =>
    rw [List.cons_append]
    cases hc : d.childOf t with
    | error err => simp only [descend_cons_of_error hc]; rfl
    | ok r =>
      simp only [descend_cons_of_child hc, ih, map_bind_eq]
      cases descend ds r.2 with
      | error err => rfl
      | ok q =>
        show ((descend ds' q.2).map _).map _ = (descend ds' q.2).map _
        cases descend ds' q.2 <;> rfl

end FieldPatch.Selector

import FieldPatch.Proofs.Tree.Entries
import FieldPatch.Tree.Write

/-! Putting another node in the place of one that a tree has. Writing at a location is
reading there, writing over the node, and putting the result in its place. -/

namespace FieldPatch

theorem Entries.put_of_get? {α : Type} {key : String} {v : α} {es : Entries α}
    (h : get? key es = some v) : put key v es = es := by
  induction es with
  | nil => simp [get?] at h
  | cons e rest ih =>
    obtain ⟨k, old⟩ := e
    by_cases hk : k = key
    · have hv : old = v := by simpa [get?, hk] using h
      simp [put, hk, hv]
    · have hr : get? key rest = some v := by simpa [get?, hk] using h
      simp [put, hk, ih hr]

namespace Tree

def setChild (t : Tree) (s : Segment) (u : Tree) : Tree :=
  match t, s with
  | .map es, .key name => .map (Entries.put name u es)
  | .array xs, .index i => .array (xs.set i u)
  | t, _ => t

theorem child?_setChild_self {t v : Tree} {s : Segment} (h : t.child? s = some v) (u : Tree) :
    (t.setChild s u).child? s = some u := by
  cases t with
  | map es =>
    cases s with
    | key name => simp [setChild, child?]
    | index i => simp [child?] at h
  | array xs =>
    cases s with
    | key name => simp [child?] at h
    | index i =>
      obtain ⟨hi, -⟩ := List.getElem?_eq_some_iff.mp h
      simp [setChild, child?, hi]
  | _ => simp [child?] at h

theorem setChild_self {t v : Tree} {s : Segment} (h : t.child? s = some v) :
    t.setChild s v = t := by
  cases t with
  | map es =>
    cases s with
    | key name => simp only [setChild, Entries.put_of_get? h]
    | index i => rfl
  | array xs =>
    cases s with
    | key name => rfl
    | index i =>
      obtain ⟨hi, hv⟩ := List.getElem?_eq_some_iff.mp h
      simp [setChild, ← hv]
  | _ => rfl

/-- The tree with `u` in the place of the node at a location, if there is such a node. -/
def replaceAt (t : Tree) : Location → Tree → Tree
  | [], u => u
  | s :: rest, u =>
    match t.child? s with
    | some v => t.setChild s (v.replaceAt rest u)
    | none => t

@[simp] theorem replaceAt_nil (t u : Tree) : t.replaceAt [] u = u := rfl

theorem replaceAt_cons {t v : Tree} {s : Segment} (h : t.child? s = some v) (l : Location)
    (u : Tree) : t.replaceAt (s :: l) u = t.setChild s (v.replaceAt l u) := by
  simp [replaceAt, h]

theorem get?_cons {t v : Tree} {s : Segment} (h : t.child? s = some v) (l : Location) :
    t.get? (s :: l) = v.get? l := by
  simp [get?, h]

theorem exists_child_of_get? {t v : Tree} {s : Segment} {l : Location}
    (h : t.get? (s :: l) = some v) : ∃ c, t.child? s = some c ∧ c.get? l = some v := by
  cases hc : t.child? s with
  | none => simp [get?, hc] at h
  | some c => exact ⟨c, rfl, by simpa [get?, hc] using h⟩

theorem get?_replaceAt_self {t v : Tree} {l : Location} (h : t.get? l = some v) (u : Tree) :
    (t.replaceAt l u).get? l = some u := by
  induction l generalizing t with
  | nil => rfl
  | cons s l ih =>
    obtain ⟨c, hc, hl⟩ := exists_child_of_get? h
    rw [replaceAt_cons hc, get?_cons (child?_setChild_self hc _)]
    exact ih hl

theorem replaceAt_self {t v : Tree} {l : Location} (h : t.get? l = some v) :
    t.replaceAt l v = t := by
  induction l generalizing t with
  | nil => simpa using h.symm
  | cons s l ih =>
    obtain ⟨c, hc, hl⟩ := exists_child_of_get? h
    rw [replaceAt_cons hc, ih hl, setChild_self hc]

theorem replaceAt_eq_self_iff {t v : Tree} {l : Location} (h : t.get? l = some v) (u : Tree) :
    t.replaceAt l u = t ↔ u = v := by
  constructor
  · intro he
    have hu := get?_replaceAt_self h u
    rw [he, h] at hu
    exact (Option.some.inj hu).symm
  · rintro rfl
    exact replaceAt_self h

theorem writeField_of_child? {t v : Tree} {name : String} (h : t.child? (.key name) = some v)
    (write : Tree → Written) :
    t.writeField name write = (write v).map fun r => (t.setChild (.key name) r.1, r.2) := by
  cases t with
  | map es =>
    have he : Entries.get? name es = some v := h
    simp only [writeField, he]
    cases write v <;> rfl
  | _ => simp [child?] at h

theorem writeItem_of_child? {t v : Tree} {i : Nat} (h : t.child? (.index i) = some v)
    (write : Tree → Written) :
    t.writeItem i write = (write v).map fun r => (t.setChild (.index i) r.1, r.2) := by
  cases t with
  | array xs =>
    have he : xs[i]? = some v := h
    simp only [writeItem, he]
    cases write v <;> rfl
  | _ => simp [child?] at h

theorem writeAt_cons {t v : Tree} {s : Segment} (h : t.child? s = some v)
    (write : Tree → Written) (l : Location) :
    t.writeAt write (s :: l) = (v.writeAt write l).map fun r => (t.setChild s r.1, r.2) := by
  cases s with
  | key name =>
    cases t with
    | map es => exact writeField_of_child? h _
    | _ => simp [child?] at h
  | index i =>
    cases t with
    | array xs => exact writeItem_of_child? h _
    | _ => simp [child?] at h

/-- Writing at a location that a tree has fails only where writing over the node does. -/
theorem writeAt_of_get? {t v : Tree} {l : Location} (h : t.get? l = some v)
    (write : Tree → Written) :
    t.writeAt write l = (write v).map fun r => (t.replaceAt l r.1, r.2) := by
  induction l generalizing t with
  | nil =>
    obtain rfl : t = v := by simpa using h
    simp only [writeAt, replaceAt_nil]
    cases write t <;> rfl
  | cons s l ih =>
    obtain ⟨c, hc, hl⟩ := exists_child_of_get? h
    rw [writeAt_cons hc, ih hl]
    simp only [replaceAt_cons hc]
    cases write v <;> rfl

end Tree

end FieldPatch

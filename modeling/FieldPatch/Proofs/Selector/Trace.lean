import FieldPatch.Proofs.Selector.Descent

/-! The way behind a node that a search finds: one move for every component, through the
first elements that get through where the path iterates. -/

namespace FieldPatch.Selector

def Component.isSlice : Component → Bool
  | .slice _ _ => true
  | _ => false

/-- `d` is where one component leads from `c`, or one of the places if it iterates. -/
inductive Moves (c : Cursor) : Component → Cursor → Prop
  | field {name : String} {d : Cursor} (h : c.field name = .ok d) : Moves c (.field name) d
  | key {name : String} {d : Cursor} (h : c.field name = .ok d) : Moves c (.key name) d
  | index {i : Int} {d : Cursor} (h : c.index i = .ok d) : Moves c (.index i) d
  | slice {first last : Option Int} {d : Cursor} (h : c.slice first last = .ok d) :
    Moves c (.slice first last) d
  | each {ds : List Cursor} {d : Cursor} (h : c.elements = .ok ds) (hd : d ∈ ds) : Moves c .each d

inductive Follows : Path → Cursor → Cursor → Prop
  | nil (c : Cursor) : Follows [] c c
  | cons {k : Component} {p : Path} {c d e : Cursor} (h : Moves c k d) (hp : Follows p d e) :
    Follows (k :: p) c e

inductive Runs (source : String) : List Step → Cursor → Cursor → Prop
  | nil (c : Cursor) : Runs source [] c c
  | path {p : Path} {rest : List Step} {c d e : Cursor} (h : Follows p c d)
    (hr : Runs source rest d e) : Runs source (.path p :: rest) c e
  | select {condition : Comparison} {rest : List Step} {c d : Cursor}
    (h : condition.holds source c.node = true) (hr : Runs source rest c d) :
    Runs source (.select condition :: rest) c d

theorem exists_mem_of_firstThrough {source : String} {search : Cursor → Outcome}
    {cs : List Cursor} {d : Cursor} (h : firstThrough source search cs = .ok (some d)) :
    ∃ c ∈ cs, search c = .ok (some d) := by
  induction cs with
  | nil => simp [firstThrough] at h
  | cons c cs ih =>
    unfold firstThrough at h
    split at h
    · next found hc => exact ⟨c, by simp, hc.trans h⟩
    · obtain ⟨c', hm, hc'⟩ := ih h
      exact ⟨c', by simp [hm], hc'⟩

theorem exists_follows {source : String} {next : Cursor → Outcome} {p : Path} {c d : Cursor}
    (h : follow source next p c = .ok (some d)) :
    ∃ e, Follows p c e ∧ next e = .ok (some d) := by
  induction p generalizing c with
  | nil => exact ⟨c, .nil c, h⟩
  | cons k p ih =>
    have step : ∀ {c'}, Moves c k c' → follow source next p c' = .ok (some d) →
        ∃ e, Follows (k :: p) c e ∧ next e = .ok (some d) := by
      intro c' hm hc'
      obtain ⟨e, he, hn⟩ := ih hc'
      exact ⟨e, .cons hm he, hn⟩
    cases k with
    | field name =>
      obtain ⟨c', hm, hc'⟩ := ok_of_bind h
      exact step (.field hm) hc'
    | key name =>
      obtain ⟨c', hm, hc'⟩ := ok_of_bind h
      exact step (.key hm) hc'
    | index i =>
      obtain ⟨c', hm, hc'⟩ := ok_of_bind h
      exact step (.index hm) hc'
    | slice first last =>
      obtain ⟨c', hm, hc'⟩ := ok_of_bind h
      exact step (.slice hm) hc'
    | each =>
      obtain ⟨cs, hm, hcs⟩ := ok_of_bind h
      obtain ⟨c', hc, hc'⟩ := exists_mem_of_firstThrough hcs
      exact step (.each hm hc) hc'

theorem runs_of_run {source : String} {steps : List Step} {c d : Cursor}
    (h : run source steps c = .ok (some d)) : Runs source steps c d := by
  induction steps generalizing c with
  | nil =>
    obtain rfl : c = d := by simpa [run] using h
    exact .nil c
  | cons s rest ih =>
    cases s with
    | path p =>
      obtain ⟨e, he, hr⟩ := exists_follows h
      exact .path he (ih hr)
    | select condition =>
      unfold run at h
      split at h
      · next hc => exact .select hc (ih h)
      · cases h

theorem resolve_eq_ok_iff {t : Tree} {e : Expression} {c : Cursor} :
    resolve t e = .ok c ↔ run e.source e.steps (.root t) = .ok (some c) := by
  unfold resolve
  split <;> simp_all

theorem Cursor.elementsFrom_eq (c : Cursor) (i : Nat) (xs : List Tree) :
    c.elementsFrom i xs = (xs.zipIdx i).map fun r => c.child (.index r.2) r.1 := by
  induction xs generalizing i with
  | nil => rfl
  | cons x xs ih => simp [elementsFrom, List.zipIdx_cons, ih]

theorem Cursor.exists_child_of_elements {c d : Cursor} {ds : List Cursor}
    (h : c.elements = .ok ds) (hd : d ∈ ds) :
    ∃ s v, c.node.child? s = some v ∧ d = c.child s v := by
  obtain ⟨t, l⟩ := c
  cases t with
  | array xs =>
    obtain rfl := Except.ok.inj h
    rw [elementsFrom_eq, List.mem_map] at hd
    obtain ⟨⟨v, j⟩, hm, rfl⟩ := hd
    exact ⟨.index j, v, List.mem_zipIdx_iff_getElem?.mp hm, rfl⟩
  | _ => simp [elements] at h

theorem exists_child_of_map_childOf {c d : Cursor} {step : DirectStep}
    (h : ((step.childOf c.node).map fun r => c.child r.1 r.2) = .ok d) :
    ∃ s v, c.node.child? s = some v ∧ d = c.child s v := by
  obtain ⟨⟨s, v⟩, hr, rfl⟩ := ok_of_map h
  exact ⟨s, v, child?_of_childOf hr, rfl⟩

/-- Everything a move can do: it goes to a child, or it makes a slice, which is nowhere. -/
theorem Moves.child_or_slice {c d : Cursor} {k : Component} (h : Moves c k d) :
    (k.isSlice = false ∧ ∃ s v, c.node.child? s = some v ∧ d = c.child s v) ∨
      (k.isSlice = true ∧ d.location = none) := by
  cases h with
  | field h => exact .inl ⟨rfl, exists_child_of_map_childOf (c.field_eq _ ▸ h)⟩
  | key h => exact .inl ⟨rfl, exists_child_of_map_childOf (c.field_eq _ ▸ h)⟩
  | index h => exact .inl ⟨rfl, exists_child_of_map_childOf (c.index_eq _ ▸ h)⟩
  | each h hd => exact .inl ⟨rfl, Cursor.exists_child_of_elements h hd⟩
  | slice h =>
    refine .inr ⟨rfl, ?_⟩
    unfold Cursor.slice at h
    split at h
    · cases h
      rfl
    · cases h

end FieldPatch.Selector

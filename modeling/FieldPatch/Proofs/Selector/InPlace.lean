import FieldPatch.Proofs.Selector.Direct

/-! Writing in place, on a tree that is there and keeps whatever was done to it when a write
fails. Writes that make a new tree come to the same: one that fails has done nothing yet. -/

namespace FieldPatch.Selector

/-- What a write reports, and what it leaves of the tree, whether it fails or not. -/
abbrev InPlace := Tree → Except Error Bool × Tree

namespace InPlace

def overwrite (text : String) : InPlace := fun t =>
  match t.scalarText with
  | none => (.error (.typeMismatch "scalar" t.kind), t)
  | some current => if current = text then (.ok false, t) else (.ok true, t.rescalar text)

/-- Works on one child, if there is one, and leaves in its place what became of it. -/
def onChild (write : InPlace) (t : Tree) : Except Error (Segment × Tree) → Except Error Bool × Tree
  | .error err => (.error err, t)
  | .ok (s, c) => ((write c).1, t.setChild s (write c).2)

/-- The map that gets the last field of a path because it does not have it yet. -/
def addedTo (text : String) (ds : List DirectStep) (t : Tree) : Option Tree :=
  match ds, t with
  | [.field name], .map es =>
    if (Entries.get? name es).isSome then none else some (.map (es ++ [(name, .text text)]))
  | _, _ => none

/-- Works its way down by fields and indices. -/
def direct (text : String) : List DirectStep → InPlace
  | [], t => overwrite text t
  | d :: ds, t =>
    match addedTo text (d :: ds) t with
    | some t' => (.ok true, t')
    | none => onChild (direct text ds) t (d.childOf t)

def childAt (t : Tree) (s : Segment) : Except Error (Segment × Tree) :=
  match t.child? s with
  | some c => .ok (s, c)
  | none =>
    match s, t with
    | .key name, .map _ => .error (.notFound (.field name))
    | .index i, .array xs => .error (.indexOutOfBounds i xs.length)
    | _, other => .error (.typeMismatch "map or array" other.kind)

/-- Works its way down to a location. -/
def atLocation (text : String) : Location → InPlace
  | [], t => overwrite text t
  | s :: l, t => onChild (atLocation text l) t (childAt t s)

def set (text : String) (e : Expression) : InPlace := fun t =>
  match e.directPath? with
  | some ds => direct text ds t
  | none =>
    match locate t e with
    | .error err => (.error err, t)
    | .ok l => atLocation text l t

/-- What is left behind if a write that fails leaves the tree as it was. -/
def kept (t : Tree) : Written → Except Error Bool × Tree
  | .ok (t', changed) => (.ok changed, t')
  | .error err => (.error err, t)

variable {t c : Tree} {s : Segment} {text : String}

theorem overwrite_eq (text : String) (t : Tree) : overwrite text t = kept t (t.overwrite text) := by
  unfold overwrite Tree.overwrite
  cases t.scalarText with
  | none => rfl
  | some current =>
    dsimp only
    split <;> rfl

theorem onChild_ok {write : InPlace} {r : Written} (hc : t.child? s = some c)
    (hw : write c = kept c r) :
    onChild write t (.ok (s, c)) = kept t (r.map fun q => (t.setChild s q.1, q.2)) := by
  simp only [onChild, hw]
  cases r with
  | ok q => rfl
  | error err =>
    -- the child is what it was, and so is the tree around it
    show (_, t.setChild s c) = (_, t)
    rw [Tree.setChild_self hc]
    rfl

theorem writeDirect_of_addedTo {ds : List DirectStep} {t' : Tree} (h : addedTo text ds t = some t') :
    writeDirect text ds t = .ok (t', true) := by
  unfold addedTo at h
  split at h
  · next name es =>
    split at h
    · cases h
    · next hn =>
      cases h
      simp [writeDirect, hn]
  · cases h

theorem get?_of_addedTo_eq_none {name : String} {es : Entries Tree}
    (h : addedTo text [.field name] (.map es) = none) : Entries.get? name es ≠ none := by
  simpa [addedTo] using h

theorem direct_eq (ds : List DirectStep) (t : Tree) :
    direct text ds t = kept t (writeDirect text ds t) := by
  induction ds generalizing t with
  | nil => exact overwrite_eq text t
  | cons d ds ih =>
    cases ha : addedTo text (d :: ds) t with
    | some t' =>
      simp only [direct, ha, writeDirect_of_addedTo ha]
      rfl
    | none =>
      simp only [direct, ha]
      cases hc : d.childOf t with
      | ok r =>
        obtain ⟨s, c⟩ := r
        rw [writeDirect_cons_of_child hc]
        exact onChild_ok (child?_of_childOf hc) (ih c)
      | error err =>
        rw [writeDirect_cons_of_error hc]
        · rfl
        · rintro rfl name es rfl rfl
          obtain ⟨v, hv⟩ := Option.ne_none_iff_exists'.mp (get?_of_addedTo_eq_none ha)
          simp [DirectStep.childOf, hv] at hc

theorem atLocation_eq (l : Location) (t : Tree) :
    atLocation text l t = kept t (t.writeAt (Tree.overwrite text) l) := by
  induction l generalizing t with
  | nil => exact overwrite_eq text t
  | cons s l ih =>
    simp only [atLocation, childAt]
    cases hc : t.child? s with
    | some c =>
      rw [Tree.writeAt_cons hc]
      exact onChild_ok hc (ih c)
    | none =>
      cases s with
      | key name =>
        cases t with
        | map es =>
          have he : Entries.get? name es = none := hc
          simp only [Tree.writeAt, Tree.writeField, he]
          rfl
        | _ => rfl
      | index i =>
        cases t with
        | array xs =>
          have hx : xs[i]? = none := hc
          simp only [Tree.writeAt, Tree.writeItem, hx]
          rfl
        | _ => rfl

/-- A write in place reports what a write to a new tree does. It leaves that tree if it succeeds,
and the tree as it was if it fails. -/
theorem set_eq (text : String) (e : Expression) (t : Tree) :
    InPlace.set text e t = kept t (Selector.set text e t) := by
  unfold InPlace.set Selector.set
  cases e.directPath? with
  | some ds => exact direct_eq ds t
  | none =>
    simp only [writeLocated]
    cases locate t e with
    | error err => rfl
    | ok l => exact atLocation_eq l t

end InPlace

end FieldPatch.Selector

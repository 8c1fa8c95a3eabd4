import FieldPatch.Tree.Basic

/-! The nodes of a tree, wherever they are in it, and induction over a tree by its nodes. -/

namespace FieldPatch.Tree

theorem induction {P : Tree → Prop} (null : P .null) (bool : ∀ b, P (.bool b))
    (number : ∀ n, P (.number n)) (text : ∀ s, P (.text s))
    (array : ∀ xs, (∀ x ∈ xs, P x) → P (.array xs))
    (map : ∀ es, (∀ e ∈ es, P e.2) → P (.map es)) : ∀ t, P t
  | .null => null
  | .bool b => bool b
  | .number n => number n
  | .text s => text s
  | .array xs => array xs fun x _ => induction null bool number text array map x
  | .map es => map es fun e _ => induction null bool number text array map e.2
termination_by t => t
decreasing_by
  · rename_i hx
    have hx := List.sizeOf_lt_of_mem hx
    simp
    omega
  · rename_i he
    have he := List.sizeOf_lt_of_mem he
    obtain ⟨k, v⟩ := e
    simp at he ⊢
    omega

/-- `u` is a node of the tree. -/
inductive Occurs (u : Tree) : Tree → Prop
  | root : Occurs u u
  | item {xs : List Tree} {x : Tree} (hx : x ∈ xs) (h : Occurs u x) : Occurs u (.array xs)
  | entry {es : Entries Tree} {e : String × Tree} (he : e ∈ es) (h : Occurs u e.2) :
    Occurs u (.map es)

theorem occurs_array_iff {u : Tree} {xs : List Tree} :
    Occurs u (.array xs) ↔ u = .array xs ∨ ∃ x ∈ xs, Occurs u x := by
  constructor
  · intro h
    cases h with
    | root => exact .inl rfl
    | item hx h => exact .inr ⟨_, hx, h⟩
  · rintro (rfl | ⟨x, hx, h⟩)
    · exact .root
    · exact .item hx h

theorem occurs_map_iff {u : Tree} {es : Entries Tree} :
    Occurs u (.map es) ↔ u = .map es ∨ ∃ e ∈ es, Occurs u e.2 := by
  constructor
  · intro h
    cases h with
    | root => exact .inl rfl
    | entry he h => exact .inr ⟨_, he, h⟩
  · rintro (rfl | ⟨e, he, h⟩)
    · exact .root
    · exact .entry he h

theorem occurs_number_iff {u : Tree} {n : Number} : Occurs u (.number n) ↔ u = .number n := by
  constructor
  · intro h
    cases h
    rfl
  · rintro rfl
    exact .root

/-- No map of the tree has a key twice. -/
def DistinctKeys (t : Tree) : Prop := ∀ es, Occurs (.map es) t → (Entries.keys es).Nodup

theorem DistinctKeys.item {xs : List Tree} (h : (Tree.array xs).DistinctKeys) {x : Tree}
    (hx : x ∈ xs) : x.DistinctKeys :=
  fun es he => h es (.item hx he)

theorem DistinctKeys.keys {es : Entries Tree} (h : (Tree.map es).DistinctKeys) :
    (Entries.keys es).Nodup :=
  h es .root

theorem DistinctKeys.entry {es : Entries Tree} (h : (Tree.map es).DistinctKeys)
    {e : String × Tree} (he : e ∈ es) : e.2.DistinctKeys :=
  fun fs hf => h fs (.entry he hf)

end FieldPatch.Tree

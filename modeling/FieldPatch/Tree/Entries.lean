/-! Ordered maps as lists of entries: a key keeps the place where it first came. -/

namespace FieldPatch

abbrev Entries (α : Type) := List (String × α)

namespace Entries

variable {α : Type}

def keys (es : Entries α) : List String := es.map Prod.fst

/-- The value of the first entry with this key. -/
def get? (key : String) : Entries α → Option α
  | [] => none
  | (k, v) :: rest => if k = key then some v else get? key rest

/-- Gives `key` the value `v` in the place it has, or in a new place at the end. -/
def put (key : String) (v : α) : Entries α → Entries α
  | [] => [(key, v)]
  | (k, old) :: rest => if k = key then (k, v) :: rest else (k, old) :: put key v rest

/-- The map that entering the pairs one after the other makes. -/
def ofPairs (pairs : List (String × α)) : Entries α :=
  pairs.foldl (fun es (k, v) => put k v es) []

@[simp] theorem get?_put_self (key : String) (v : α) (es : Entries α) :
    get? key (put key v es) = some v := by
  fun_induction put key v es <;> simp_all [get?]

theorem get?_put_of_ne {key other : String} (h : other ≠ key) (v : α) (es : Entries α) :
    get? other (put key v es) = get? other es := by
  fun_induction put key v es <;> simp_all [get?, Ne.symm h]

theorem keys_put_of_mem {key : String} {es : Entries α} (h : key ∈ keys es) (v : α) :
    keys (put key v es) = keys es := by
  induction es with
  | nil => simp [keys] at h
  | cons e rest ih =>
    obtain ⟨k, old⟩ := e
    by_cases hk : k = key
    · simp [put, hk, keys]
    · have : key ∈ keys rest := by
        simpa [keys, Ne.symm hk] using h
      simpa [put, hk, keys] using ih this

theorem put_eq_append {key : String} {es : Entries α} (h : key ∉ keys es) (v : α) :
    put key v es = es ++ [(key, v)] := by
  induction es with
  | nil => rfl
  | cons e rest ih =>
    obtain ⟨k, old⟩ := e
    have hk : k ≠ key := by rintro rfl; exact h (by simp [keys])
    have hr : key ∉ keys rest := fun hm => h (by simp [keys] at hm ⊢; exact Or.inr hm)
    simp [put, hk, ih hr]

end Entries

end FieldPatch

import FieldPatch.Error

/-! Positions in arrays. A negative position counts from the end. -/

namespace FieldPatch

/-- A position as a place from the front, before it is held against the length. -/
def fromFront (i : Int) (length : Nat) : Int := if i < 0 then length + i else i

def resolveIndex (index : Int) (length : Nat) : Except Error Nat :=
  let i := fromFront index length
  if i < 0 ∨ length ≤ i then .error (.indexOutOfBounds index length) else .ok i.toNat

/-- A slice bound, moved into `0 … length`. -/
def clampBound (bound : Int) (length : Nat) : Nat :=
  min (fromFront bound length).toNat length

/-- The bounds of a slice. Inverted bounds make an empty slice at the first one. -/
def resolveSlice (first last : Option Int) (length : Nat) : Nat × Nat :=
  let s := first.elim 0 (clampBound · length)
  let e := last.elim length (clampBound · length)
  (s, max s e)

theorem resolveIndex_lt {index : Int} {length i : Nat} (h : resolveIndex index length = .ok i) :
    i < length := by
  simp only [resolveIndex] at h
  split at h
  · cases h
  · cases h; omega

theorem resolveSlice_le (first last : Option Int) (length : Nat) :
    (resolveSlice first last length).1 ≤ (resolveSlice first last length).2 ∧
      (resolveSlice first last length).2 ≤ length := by
  simp only [resolveSlice]
  cases first <;> cases last <;> simp only [clampBound, Option.elim_none, Option.elim_some] <;> omega

end FieldPatch

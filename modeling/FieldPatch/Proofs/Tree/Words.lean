import FieldPatch.Number.Reading
import FieldPatch.Tree.Position

/-! Positions computed in words of 64 bits. Each step that a word may be too small for is checked:
for arrays of a length that a signed word can hold, no check fails, and the positions are those of
exact arithmetic. -/

namespace FieldPatch.Words

/-- A sum, unless it does not fit. -/
def add? (a b : Int64) : Option Int64 :=
  if fitsSigned64 (a.toInt + b.toInt) then some (a + b) else none

/-- A word moved into a range, unless there is none. -/
def clamp? (a low high : Int64) : Option Int64 :=
  if low ≤ high then some (if a < low then low else if high < a then high else a) else none

def fromFront? (i : Int64) (length : UInt64) : Option Int64 :=
  if i < 0 then add? length.toInt64 i else some i

def resolveIndex? (index : Int64) (length : UInt64) : Option (Except Error UInt64) := do
  let i ← fromFront? index length
  return if i < 0 ∨ length.toInt64 ≤ i then .error (.indexOutOfBounds index.toInt length.toNat)
    else .ok i.toUInt64

def clampBound? (bound : Int64) (length : UInt64) : Option UInt64 := do
  let b ← fromFront? bound length
  return (← clamp? b 0 length.toInt64).toUInt64

def resolveSlice? (first last : Option Int64) (length : UInt64) : Option (UInt64 × UInt64) := do
  let s ← first.elim (some 0) (clampBound? · length)
  let e ← last.elim (some length) (clampBound? · length)
  return if e < s then (s, s) else (s, e)

variable {length : UInt64}

theorem toInt_toInt64 (h : length.toNat < 0x8000000000000000) :
    length.toInt64.toInt = length.toNat := by
  have hbits : 2 * length.toBitVec.toNat < 2 ^ 64 := by
    rw [UInt64.toNat_toBitVec]
    omega
  rw [← Int64.toInt_toBitVec, UInt64.toBitVec_toInt64, BitVec.toInt_eq_toNat_of_lt hbits,
    UInt64.toNat_toBitVec]

theorem toNat_toUInt64 {i : Int64} (h : 0 ≤ i.toInt) : i.toUInt64.toNat = i.toInt.toNat :=
  Int64.toNat_toUInt64_of_le (Int64.le_iff_toInt_le.mpr h)

theorem add?_eq_some {a b : Int64} (h : -0x8000000000000000 ≤ a.toInt + b.toInt)
    (h' : a.toInt + b.toInt < 0x8000000000000000) :
    ∃ c, add? a b = some c ∧ c.toInt = a.toInt + b.toInt := by
  refine ⟨a + b, ?_, ?_⟩
  · simp [add?, fitsSigned64, h, h']
  · rw [Int64.toInt_add, Int.bmod_eq_of_le_mul_two]
    · omega
    · omega

theorem fromFront?_eq_some (h : length.toNat < 0x8000000000000000) (i : Int64) :
    ∃ r, fromFront? i length = some r ∧ r.toInt = fromFront i.toInt length.toNat := by
  have hlength := toInt_toInt64 h
  have hlow := i.le_toInt
  by_cases hi : i < 0
  · have hneg : i.toInt < 0 := Int64.lt_iff_toInt_lt.mp hi
    obtain ⟨r, hr, hv⟩ := add?_eq_some (a := length.toInt64) (b := i) (by omega) (by omega)
    exact ⟨r, by rw [fromFront?, if_pos hi, hr], by rw [hv, hlength, fromFront, if_pos hneg]⟩
  · have hnonneg : ¬ i.toInt < 0 := fun hneg => hi (Int64.lt_iff_toInt_lt.mpr hneg)
    exact ⟨i, by rw [fromFront?, if_neg hi], by rw [fromFront, if_neg hnonneg]⟩

theorem clamp?_eq_some {a low high : Int64} (h : low.toInt ≤ high.toInt) :
    ∃ c, clamp? a low high = some c ∧ c.toInt = max low.toInt (min a.toInt high.toInt) := by
  refine ⟨_, if_pos (Int64.le_iff_toInt_le.mpr h), ?_⟩
  simp only [Int64.lt_iff_toInt_lt]
  split
  · omega
  · split <;> omega

/-- An index is made out without overflow. -/
theorem resolveIndex?_eq (h : length.toNat < 0x8000000000000000) (i : Int64) :
    (resolveIndex? i length).map (Except.map UInt64.toNat) =
      some (resolveIndex i.toInt length.toNat) := by
  obtain ⟨r, hr, hv⟩ := fromFront?_eq_some h i
  have hout : (r < 0 ∨ length.toInt64 ≤ r) ↔ fromFront i.toInt length.toNat < 0 ∨
      (length.toNat : Int) ≤ fromFront i.toInt length.toNat := by
    rw [Int64.lt_iff_toInt_lt, Int64.le_iff_toInt_le, toInt_toInt64 h, hv]
    rfl
  simp only [resolveIndex?, hr, Option.bind_eq_bind, Option.bind_some, resolveIndex, hout]
  split
  · rfl
  · next hin =>
    have hnonneg : 0 ≤ r.toInt := by omega
    simp [Except.map, toNat_toUInt64 hnonneg, hv]

theorem clampBound?_eq_some (h : length.toNat < 0x8000000000000000) (bound : Int64) :
    ∃ b, clampBound? bound length = some b ∧ b.toNat = clampBound bound.toInt length.toNat := by
  obtain ⟨r, hr, hv⟩ := fromFront?_eq_some h bound
  have hlength := toInt_toInt64 h
  have hzero : (0 : Int64).toInt = 0 := rfl
  have hbounds : (0 : Int64).toInt ≤ length.toInt64.toInt := by omega
  obtain ⟨c, hc, hcv⟩ := clamp?_eq_some (a := r) hbounds
  refine ⟨c.toUInt64, by simp [clampBound?, hr, hc], ?_⟩
  rw [toNat_toUInt64 (by omega), hcv, hv, hlength, hzero, clampBound]
  omega

theorem resolveSlice?_eq (h : length.toNat < 0x8000000000000000) (first last : Option Int64) :
    (resolveSlice? first last length).map (Prod.map UInt64.toNat UInt64.toNat) =
      some (resolveSlice (first.map Int64.toInt) (last.map Int64.toInt) length.toNat) := by
  have hfirst : ∃ s, first.elim (some 0) (clampBound? · length) = some s ∧
      s.toNat = (first.map Int64.toInt).elim 0 (clampBound · length.toNat) := by
    cases first with
    | none => exact ⟨0, rfl, rfl⟩
    | some b => exact clampBound?_eq_some h b
  have hlast : ∃ e, last.elim (some length) (clampBound? · length) = some e ∧
      e.toNat = (last.map Int64.toInt).elim length.toNat (clampBound · length.toNat) := by
    cases last with
    | none => exact ⟨length, rfl, rfl⟩
    | some b => exact clampBound?_eq_some h b
  obtain ⟨s, hs, hsv⟩ := hfirst
  obtain ⟨e, he, hev⟩ := hlast
  simp only [resolveSlice?, hs, he, Option.bind_eq_bind, Option.bind_some, resolveSlice, ← hsv, ← hev,
    UInt64.lt_iff_toNat_lt]
  split
  · next hinverted => simp [Nat.max_eq_left (Nat.le_of_lt hinverted)]
  · next hinverted => simp [Nat.max_eq_right (Nat.not_lt.mp hinverted)]

end FieldPatch.Words

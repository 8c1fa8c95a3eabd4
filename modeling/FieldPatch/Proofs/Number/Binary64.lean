import FieldPatch.Number.Binary64
import Mathlib

/-! Doubles by their bits: the fields of a double that is put together from a sign and a magnitude,
and the range in which integers have a nearest double that is finite. -/

namespace FieldPatch.Binary64

theorem toNat_bits_ofMagnitude (negative : Bool) {m : Nat} (h : m < 0x8000000000000000) :
    (ofMagnitude negative m).bits.toNat = (if negative then 0x8000000000000000 else 0) + m := by
  simp only [ofMagnitude, UInt64.toNat_ofNat']
  cases negative <;> simp <;> omega

theorem exponentField_ofMagnitude (negative : Bool) {m : Nat} (h : m < 0x8000000000000000) :
    (ofMagnitude negative m).exponentField = m / 0x10000000000000 := by
  rw [exponentField, toNat_bits_ofMagnitude negative h]
  cases negative <;> simp <;> omega

theorem isFinite_ofMagnitude (negative : Bool) {m : Nat} (h : m < 2047 * 0x10000000000000) :
    (ofMagnitude negative m).isFinite = true := by
  have hf := exponentField_ofMagnitude negative (m := m) (by omega)
  simp only [isFinite, hf, bne_iff_ne]
  omega

theorem isNegative_ofMagnitude {m : Nat} (h : m < 0x8000000000000000) :
    (ofMagnitude false m).isNegative = false := by
  simp only [isNegative, toNat_bits_ofMagnitude false h, decide_eq_false_iff_not]
  simp
  omega

theorem le_roundHalfEven (num den : Nat) : num / den ≤ roundHalfEven num den := by
  simp only [roundHalfEven]
  split
  · omega
  · split
    · omega
    · omega

theorem roundHalfEven_le (num den : Nat) : roundHalfEven num den ≤ num / den + 1 := by
  simp only [roundHalfEven]
  split
  · omega
  · split
    · omega
    · omega

theorem binaryOrder_one {n k : Nat} (h : 2 ^ k ≤ n) (h' : n < 2 ^ (k + 1)) : binaryOrder n 1 = k := by
  have hn : n ≠ 0 := by
    have := Nat.two_pow_pos k
    omega
  have hlog : n.log2 = k := (Nat.log2_eq_iff hn).mpr ⟨h, h'⟩
  have hone : Nat.log2 1 = 0 := by decide
  simp only [binaryOrder, hlog, hone, twoToThe]
  rw [if_pos]
  · simp
  · simpa using h

/-- The double next to an integer above the signed range: of its 64 bits the upper 53 are kept. -/
theorem ofInt_natCast {m : Nat} (h : 0x8000000000000000 ≤ m) (h' : m < 0x10000000000000000) :
    ofInt m = ofMagnitude false (1085 * 0x10000000000000 + roundHalfEven m 2048) := by
  have horder : binaryOrder m 1 = (63 : Nat) := binaryOrder_one (by omega) (by omega)
  have hround := roundHalfEven_le m 2048
  have hzero : m ≠ 0 := by omega
  have hsign : decide ((m : Int) < 0) = false := by simp
  -- the unit in the last place is 2 ^ 11, since the mantissa has 53 of the 64 bits
  have hunit : max (((63 : Nat) : Int) - 52) (-1074) = 11 := by decide
  have hscaled : roundHalfEven (m * twoToThe (-11 : Int).toNat) (1 * twoToThe (11 : Int).toNat)
      = roundHalfEven m 2048 := by
    simp [twoToThe]
  have hbiased : ((11 : Int) + 1074).toNat = 1085 := by decide
  simp only [ofInt, Int.natAbs_natCast, ofRatio, if_neg hzero, horder, hunit, hscaled, hbiased, hsign]
  rw [Nat.min_eq_left (by omega)]

/-- An integer above the signed range has a double next to it. -/
theorem isFinite_ofInt {n : Int} (h : 0x8000000000000000 ≤ n) (h' : n < 0x10000000000000000) :
    (ofInt n).isFinite = true := by
  obtain ⟨m, rfl⟩ := Int.eq_ofNat_of_zero_le (by omega : 0 ≤ n)
  have hround := roundHalfEven_le m 2048
  rw [ofInt_natCast (by omega) (by omega)]
  exact isFinite_ofMagnitude false (by omega)

end FieldPatch.Binary64

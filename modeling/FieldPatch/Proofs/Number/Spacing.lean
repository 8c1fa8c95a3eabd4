import FieldPatch.Proofs.Number.Binary64
import FieldPatch.Number.Shortest

/-! The finite doubles in order: how far they are apart, and that no number reads back as two. -/

namespace FieldPatch

theorem twoToThe_add (a b : Nat) : twoToThe (a + b) = twoToThe a * twoToThe b := Nat.pow_add 2 a b

theorem twoToThe_pos (a : Nat) : 0 < twoToThe a := Nat.two_pow_pos a

namespace Binary64

def magnitudeBits (x : Binary64) : Nat := x.bits.toNat % 0x8000000000000000

theorem exponentField_eq (x : Binary64) :
    x.exponentField = x.magnitudeBits / 0x10000000000000 := by
  rw [exponentField, magnitudeBits]
  omega

theorem fraction_eq (x : Binary64) : x.fraction = x.magnitudeBits % 0x10000000000000 := by
  rw [fraction, magnitudeBits]
  omega

theorem magnitudeBits_eq_zero_iff {x : Binary64} : x.magnitudeBits = 0 ↔ x.isZero = true := by
  simp only [isZero, exponentField_eq, fraction_eq, Bool.and_eq_true, beq_iff_eq]
  omega

theorem mantissa_pos {x : Binary64} (hx : x.isZero = false) : 0 < x.mantissa := by
  simp only [isZero, Bool.and_eq_false_iff, beq_eq_false_iff_ne] at hx
  rw [mantissa]
  split <;> omega

theorem eq_of_magnitudeBits_eq {x y : Binary64} (hsign : x.isNegative = y.isNegative)
    (h : x.magnitudeBits = y.magnitudeBits) : x = y := by
  have hx := x.bits.toNat_lt
  have hy := y.bits.toNat_lt
  have hbits : x.bits.toNat = y.bits.toNat := by
    simp only [isNegative, magnitudeBits, decide_eq_decide] at hsign h
    omega
  cases x
  cases y
  exact congrArg mk (UInt64.toNat_inj.mp hbits)

/-- The gap behind the double of a magnitude, in units of the least double. -/
def gap (m : Nat) : Nat := 2 ^ (m / 0x10000000000000 - 1)

/-- The double of a magnitude, in units of the least one. -/
def units (m : Nat) : Nat :=
  (if m / 0x10000000000000 = 0 then m else 0x10000000000000 + m % 0x10000000000000) * gap m

theorem gap_pos (m : Nat) : 0 < gap m := Nat.two_pow_pos _

theorem units_succ (m : Nat) : units (m + 1) = units m + gap m := by
  by_cases hr : m % 0x10000000000000 + 1 = 0x10000000000000
  · -- the fraction carries into the exponent
    have hq : (m + 1) / 0x10000000000000 = m / 0x10000000000000 + 1 := by omega
    have hf : (m + 1) % 0x10000000000000 = 0 := by omega
    by_cases hz : m / 0x10000000000000 = 0
    · have hm : m + 1 = 0x10000000000000 := by omega
      simp [units, gap, hq, hf, hz]
      omega
    · obtain ⟨k, hk⟩ := Nat.exists_eq_succ_of_ne_zero hz
      have hm : m % 0x10000000000000 = 0xFFFFFFFFFFFFF := by omega
      simp only [units, gap, hq, hf, hk, hm]
      simp [Nat.pow_succ]
      omega
  · have hq : (m + 1) / 0x10000000000000 = m / 0x10000000000000 := by omega
    have hf : (m + 1) % 0x10000000000000 = m % 0x10000000000000 + 1 := by omega
    simp only [units, gap, hq, hf]
    split
    · ring
    · ring

theorem units_strictMono : StrictMono units :=
  strictMono_nat_of_lt_succ fun m => by
    rw [units_succ]
    exact Nat.lt_add_of_pos_right (gap_pos m)

theorem two_mul_gap (m : Nat) :
    2 * gap m =
      (if (m + 1) % 0x10000000000000 = 0 ∧ 1 < (m + 1) / 0x10000000000000 then 1 else 2) *
        gap (m + 1) := by
  split
  · next h =>
    obtain ⟨k, hk⟩ : ∃ k, m / 0x10000000000000 = k + 1 := ⟨m / 0x10000000000000 - 1, by omega⟩
    have hq : (m + 1) / 0x10000000000000 = k + 2 := by omega
    simp [gap, hk, hq, Nat.pow_succ, Nat.mul_comm]
  · next h =>
    have hq : m / 0x10000000000000 - 1 = (m + 1) / 0x10000000000000 - 1 := by omega
    rw [gap, gap, hq]

theorem mantissa_mul_gap (x : Binary64) :
    x.mantissa * gap x.magnitudeBits = units x.magnitudeBits := by
  simp only [mantissa, units, exponentField_eq, fraction_eq]
  split
  · next h =>
    have hm : x.magnitudeBits % 0x10000000000000 = x.magnitudeBits := by omega
    rw [hm]
  · rfl

def unitsInOne : Nat := twoToThe 1074

theorem four_mul_unitsInOne_pos : (0 : ℚ) < 4 * unitsInOne := by
  have hpos : 0 < unitsInOne := twoToThe_pos 1074
  have hcast : (0 : ℚ) < unitsInOne := Nat.cast_pos.mpr hpos
  linarith

theorem twoToThe_mul_unitsInOne (x : Binary64) :
    twoToThe x.exponent.toNat * unitsInOne = gap x.magnitudeBits * twoToThe (-x.exponent).toNat := by
  have hexp : x.exponent.toNat + 1074 = (x.exponentField - 1) + (-x.exponent).toNat := by
    rw [exponent]
    split <;> omega
  rw [unitsInOne, ← twoToThe_add, hexp, twoToThe_add, gap, ← exponentField_eq]
  rfl

end Binary64

namespace Shortest.Interval

open Binary64

variable {x y : Binary64}

theorem den_pos (x : Binary64) : 0 < (Interval.of x).den :=
  Nat.mul_pos (by decide) (Nat.two_pow_pos _)

theorem high_eq (x : Binary64) : (Interval.of x).high * (4 * unitsInOne) =
    2 * (units x.magnitudeBits + units (x.magnitudeBits + 1)) * (Interval.of x).den := by
  have hscale := twoToThe_mul_unitsInOne x
  have hunits := mantissa_mul_gap x
  calc (Interval.of x).high * (4 * unitsInOne)
      = (4 * x.mantissa + 2) * 4 * (twoToThe x.exponent.toNat * unitsInOne) := by
        simp only [Interval.of]
        ring
    _ = (4 * (x.mantissa * gap x.magnitudeBits) + 2 * gap x.magnitudeBits) *
          (4 * twoToThe (-x.exponent).toNat) := by
        rw [hscale]
        ring
    _ = _ := by
        rw [hunits, units_succ]
        simp only [Interval.of]
        ring

theorem low_eq {m : Nat} (hm : x.magnitudeBits = m + 1) :
    (Interval.of x).low * (4 * unitsInOne) = 2 * (units m + units (m + 1)) * (Interval.of x).den := by
  have hscale := twoToThe_mul_unitsInOne x
  have hunits := mantissa_mul_gap x
  have hgap := two_mul_gap m
  have hsucc := units_succ m
  -- the lower half of the gap, whichever of the two gaps it belongs to
  set below := if x.fraction = 0 ∧ 1 < x.exponentField then 1 else 2 with hbelow
  have hhalf : below * gap (m + 1) = 2 * gap m := by
    rw [hgap, hbelow, fraction_eq, exponentField_eq, hm]
  calc (Interval.of x).low * (4 * unitsInOne)
      = (4 * x.mantissa - below) * 4 * (twoToThe x.exponent.toNat * unitsInOne) := by
        simp only [Interval.of, ← hbelow]
        ring
    _ = (4 * (x.mantissa * gap (m + 1)) - below * gap (m + 1)) *
          (4 * twoToThe (-x.exponent).toNat) := by
        rw [hscale, hm, ← Nat.mul_assoc 4 x.mantissa, ← Nat.sub_mul]
        ring
    _ = 2 * (units m + units (m + 1)) * (Interval.of x).den := by
        have hunits' : x.mantissa * gap (m + 1) = units (m + 1) := hm ▸ hunits
        have hlower : 4 * units (m + 1) - 2 * gap m = 2 * (units m + units (m + 1)) := by omega
        rw [hunits', hhalf, hlower]
        rfl

theorem closed_iff (x : Binary64) : (Interval.of x).closed = true ↔ x.magnitudeBits % 2 = 0 := by
  simp only [Interval.of, mantissa, exponentField_eq, fraction_eq, decide_eq_true_eq]
  split <;> omega

/-- A number between the ends, at one of them only if the interval is closed. -/
structure Contains (i : Interval) (q : ℚ) : Prop where
  low_le : i.low ≤ q * i.den
  le_high : q * i.den ≤ i.high
  inside : i.closed = false → i.low < q * i.den ∧ q * i.den < i.high

theorem Contains.le_middle {q : ℚ} (h : (Interval.of x).Contains q) :
    q * (4 * unitsInOne) ≤ 2 * (units x.magnitudeBits + units (x.magnitudeBits + 1)) ∧
    (q * (4 * unitsInOne) = 2 * (units x.magnitudeBits + units (x.magnitudeBits + 1)) →
      (Interval.of x).closed = true) := by
  have hden : (0 : ℚ) < (Interval.of x).den := by exact_mod_cast den_pos x
  have hunits := four_mul_unitsInOne_pos
  have hhigh : ((Interval.of x).high : ℚ) * (4 * unitsInOne) =
      2 * (units x.magnitudeBits + units (x.magnitudeBits + 1)) * (Interval.of x).den := by
    exact_mod_cast high_eq x
  constructor
  · have hle := mul_le_mul_of_nonneg_right h.le_high hunits.le
    rw [hhigh] at hle
    exact le_of_mul_le_mul_right (by linarith) hden
  · intro heq
    by_contra hopen
    have hlt := mul_lt_mul_of_pos_right (h.inside (by simpa using hopen)).2 hunits
    rw [hhigh, ← heq] at hlt
    linarith

theorem Contains.middle_le {q : ℚ} {m : Nat} (hm : x.magnitudeBits = m + 1)
    (h : (Interval.of x).Contains q) :
    2 * (units m + units (m + 1)) ≤ q * (4 * unitsInOne) ∧
    (2 * (units m + units (m + 1)) = q * (4 * unitsInOne) → (Interval.of x).closed = true) := by
  have hden : (0 : ℚ) < (Interval.of x).den := by exact_mod_cast den_pos x
  have hunits := four_mul_unitsInOne_pos
  have hlow : ((Interval.of x).low : ℚ) * (4 * unitsInOne) =
      2 * (units m + units (m + 1)) * (Interval.of x).den := by
    exact_mod_cast low_eq hm
  constructor
  · have hle := mul_le_mul_of_nonneg_right h.low_le hunits.le
    rw [hlow] at hle
    exact le_of_mul_le_mul_right (by linarith) hden
  · intro heq
    by_contra hopen
    have hlt := mul_lt_mul_of_pos_right (h.inside (by simpa using hopen)).1 hunits
    rw [hlow, heq] at hlt
    linarith

theorem Contains.pos {q : ℚ} (hx : x.isZero = false) (h : (Interval.of x).Contains q) : 0 < q := by
  have hne : x.magnitudeBits ≠ 0 := fun hzero => by
    rw [magnitudeBits_eq_zero_iff.mp hzero] at hx
    cases hx
  obtain ⟨m, hm⟩ := Nat.exists_eq_succ_of_ne_zero hne
  have hunits : 0 < units m + units (m + 1) := by
    have hsucc := units_succ m
    have hgap := gap_pos m
    omega
  have hcast : (0 : ℚ) < units m + units (m + 1) := by exact_mod_cast hunits
  have hmul : 0 < q * (4 * unitsInOne) := lt_of_lt_of_le (by linarith) (h.middle_le hm).1
  exact pos_of_mul_pos_left hmul four_mul_unitsInOne_pos.le

theorem Contains.not_lt {q : ℚ} (hx : (Interval.of x).Contains q) (hy : (Interval.of y).Contains q) :
    ¬ x.magnitudeBits < y.magnitudeBits := by
  intro hlt
  obtain ⟨m, hm⟩ : ∃ m, y.magnitudeBits = m + 1 := ⟨y.magnitudeBits - 1, by omega⟩
  obtain ⟨hle, hend⟩ := hx.le_middle
  obtain ⟨hge, hstart⟩ := hy.middle_le hm
  have hfst : units x.magnitudeBits ≤ units m := units_strictMono.monotone (by omega)
  have hsnd : units (x.magnitudeBits + 1) ≤ units (m + 1) := units_strictMono.monotone (by omega)
  have hfst' : (units x.magnitudeBits : ℚ) ≤ units m := by exact_mod_cast hfst
  have hsnd' : (units (x.magnitudeBits + 1) : ℚ) ≤ units (m + 1) := by exact_mod_cast hsnd
  -- the intervals meet in one point at most, where the doubles are neighbours: not both are even
  have hxc := (closed_iff x).mp (hend (by linarith))
  have hyc := (closed_iff y).mp (hstart (by linarith))
  have hunits : units x.magnitudeBits = units m := by
    have : (units x.magnitudeBits : ℚ) = units m := by linarith
    exact_mod_cast this
  have hmx := units_strictMono.injective hunits
  omega

/-- No number reads back as two doubles. -/
theorem Contains.magnitudeBits_eq {q : ℚ} (hx : (Interval.of x).Contains q)
    (hy : (Interval.of y).Contains q) : x.magnitudeBits = y.magnitudeBits :=
  Nat.le_antisymm (Nat.not_lt.mp (hy.not_lt hx)) (Nat.not_lt.mp (hx.not_lt hy))

end Shortest.Interval

end FieldPatch

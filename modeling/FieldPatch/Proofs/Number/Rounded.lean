import FieldPatch.Proofs.Number.Layout

/-! Large doubles written out in full: beyond the seventeen digits that tell them apart there are
zeros. The double next to an integer above the signed range has two of them at least. -/

namespace FieldPatch

theorem toDigits_mul_tenToThe {n : Nat} (hn : 0 < n) (k : Nat) :
    Nat.toDigits 10 (n * tenToThe k) = Nat.toDigits 10 n ++ List.replicate k '0' := by
  induction k with
  | zero =>
    have hone : tenToThe 0 = 1 := rfl
    rw [hone, Nat.mul_one, List.replicate_zero, List.append_nil]
  | succ k ih =>
    have hshift : n * tenToThe (k + 1) = 10 * (n * tenToThe k) + 0 := by
      rw [tenToThe_add]
      simp only [tenToThe, Nat.pow_eq]
      ring
    have hpos := Nat.mul_pos hn (tenToThe_pos k)
    rw [hshift, ← Nat.toDigits_append_toDigits (by decide) hpos (by decide), ih, Nat.toDigits_zero,
      List.append_assoc, List.replicate_succ']

theorem Decimal.exponent_le_dropZeros (fuel : Nat) (d : Decimal) :
    d.exponent ≤ (d.dropZeros fuel).exponent := by
  induction fuel generalizing d with
  | zero => exact Int.le_refl _
  | succ fuel ih =>
    rw [dropZeros]
    split
    · have hrest := ih ⟨d.digits / 10, d.exponent + 1⟩
      dsimp only at hrest
      omega
    · exact Int.le_refl _

namespace Shortest

variable {i : Interval} {tie : Tie}

theorem exponent_of_onGrid {unit : Int} {d : Decimal} (h : onGrid tie i unit = some d) :
    d.exponent = unit := by
  obtain ⟨above, heq⟩ := onGrid_eq tie i unit
  rw [heq] at h
  split at h
  · cases h
    rfl
  · split at h
    · cases h
      rfl
    · cases h

theorem le_exponent_digits (tie : Tie) {x : Binary64} (hm : 0 < x.mantissa) :
    decimalOrder (Interval.of x).value (Interval.of x).den - 17 ≤ (digits tie x).exponent := by
  obtain ⟨count, hcount, d, hd, hdigits⟩ := exists_digits_eq tie hm
  have hunit := exponent_of_onGrid hd
  have hdrop := d.exponent_le_dropZeros 20
  rw [hdigits]
  omega

theorem lt_decimalOrder {num den k : Nat} (hden : 0 < den) (h : tenToThe k * den ≤ num) :
    (k : Int) < decimalOrder num den := by
  have hle : den ≤ num := (Nat.le_mul_of_pos_left den (tenToThe_pos k)).trans h
  have hquotient : tenToThe k ≤ num / den := (Nat.le_div_iff_mul_le hden).mpr h
  have hlt : tenToThe k < tenToThe (decimalLength (num / den)) :=
    hquotient.trans_lt (lt_tenToThe_decimalLength _)
  have hlength : k < decimalLength (num / den) := (Nat.pow_lt_pow_iff_right (by decide)).mp hlt
  rw [decimalOrder, if_pos hle]
  exact_mod_cast hlength

end Shortest

namespace FloatLayout

variable {l : FloatLayout}

theorem positional_eq_toString (hl : l.pointZero = false) {d : Decimal} (hd : 0 < d.digits)
    (he : 0 ≤ d.exponent) :
    l.positional d = toString (d.digits * tenToThe d.exponent.toNat : Nat) := by
  apply String.toList_inj.mp
  rw [toList_toString_nat, toDigits_mul_tenToThe hd, positional, if_pos he, hl]
  simp [zeros]

/-- A double from `10 ^ (k + 16)` on, written out in full, is an integer with `k` zeros at its end. It
need not be the integer that the double is: it is one that reads back as it. -/
theorem render_full_of_large {x : Binary64} (hfinite : x.isFinite = true)
    (hsign : x.isNegative = false) (hzero : x.isZero = false) {k : Nat}
    (hlarge : tenToThe (k + 16) * (Shortest.Interval.of x).den ≤ (Shortest.Interval.of x).value) :
    ∃ m : Nat, full.render x = toString m ∧ tenToThe k ∣ m ∧ (Shortest.Interval.of x).Contains m := by
  have hm := Binary64.mantissa_pos hzero
  have hcontains := Shortest.contains_digits .up hm
  have hexponent := Shortest.le_exponent_digits .up hm
  have horder := Shortest.lt_decimalOrder (Shortest.Interval.den_pos x) hlarge
  generalize hd : Shortest.digits .up x = d at hcontains hexponent
  -- seventeen digits of at least `k + 17` leave `k` to the exponent
  obtain ⟨e, he⟩ := Int.eq_ofNat_of_zero_le (by omega : 0 ≤ d.exponent - k)
  have hpower : d.exponent.toNat = e + k := by omega
  have hvalue : d.value = (d.digits * tenToThe d.exponent.toNat : Nat) := by
    rw [Decimal.value, Nat.cast_mul, cast_tenToThe, ← zpow_natCast, Int.toNat_of_nonneg (by omega)]
  have hdigits : 0 < d.digits := by
    have hpos := hcontains.pos hzero
    rw [hvalue, Nat.cast_pos] at hpos
    exact Nat.pos_of_mul_pos_right hpos
  refine ⟨d.digits * tenToThe d.exponent.toNat, ?_, ?_, hvalue ▸ hcontains⟩
  · have hmagnitude : full.magnitude x = full.positional d := by
      rw [magnitude, hzero, ← hd]
      rfl
    rw [render_of_isFinite hfinite, hsign, hmagnitude, positional_eq_toString rfl hdigits (by omega)]
    rfl
  · rw [hpower, tenToThe_add, ← Nat.mul_assoc]
    exact Nat.dvd_mul_left _ _

end FloatLayout

namespace Binary64

theorem value_of_exponentField {x : Binary64} (h : 1086 ≤ x.exponentField) :
    tenToThe 18 * (Shortest.Interval.of x).den ≤ (Shortest.Interval.of x).value := by
  have hexponent : x.exponent = (x.exponentField : Int) - 1075 := if_neg (by omega)
  have hmantissa : 0x10000000000000 ≤ x.mantissa := by
    rw [mantissa, if_neg (by omega)]
    exact Nat.le_add_right _ _
  have hup : twoToThe 11 ≤ twoToThe x.exponent.toNat := Nat.pow_le_pow_right (by decide) (by omega)
  have hdown : (-x.exponent).toNat = 0 := by omega
  have hconstant : tenToThe 18 * (4 * twoToThe 0) ≤ 4 * 0x10000000000000 * twoToThe 11 := by decide
  simp only [Shortest.Interval.of, hdown]
  exact hconstant.trans (Nat.mul_le_mul (Nat.mul_le_mul_left 4 hmantissa) hup)

/-- The double next to an integer above the signed range, written out in full, is an integer with two
zeros at its end. -/
theorem render_full_ofInt {n : Int} (h : 0x8000000000000000 ≤ n) (h' : n < 0x10000000000000000) :
    ∃ m : Nat, FloatLayout.full.render (ofInt n) = toString m ∧ 100 ∣ m ∧
      (Shortest.Interval.of (ofInt n)).Contains m := by
  have hfinite := isFinite_ofInt h h'
  obtain ⟨m, rfl⟩ := Int.eq_ofNat_of_zero_le (by omega : 0 ≤ n)
  have hle := le_roundHalfEven m 2048
  have hge := roundHalfEven_le m 2048
  have hbits := ofInt_natCast (m := m) (by omega) (by omega)
  have hsign : (ofInt m).isNegative = false := by
    rw [hbits]
    exact isNegative_ofMagnitude (by omega)
  have hexponent : 1086 ≤ (ofInt m).exponentField := by
    rw [hbits, exponentField_ofMagnitude false (by omega)]
    omega
  have hzero : (ofInt m).isZero = false := by
    have hne : (ofInt m).exponentField ≠ 0 := by omega
    simp [isZero, hne]
  exact FloatLayout.render_full_of_large hfinite hsign hzero (value_of_exponentField hexponent)

end Binary64

end FieldPatch

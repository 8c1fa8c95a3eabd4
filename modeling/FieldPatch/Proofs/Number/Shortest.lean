import FieldPatch.Proofs.Number.Spacing

/-! The shortest digits of a double stand for a number that reads back as it. -/

namespace FieldPatch

theorem tenToThe_pos (n : Nat) : 0 < tenToThe n := Nat.pow_pos (by decide)

theorem tenToThe_add (a b : Nat) : tenToThe (a + b) = tenToThe a * tenToThe b := Nat.pow_add 10 a b

theorem cast_tenToThe (n : Nat) : (tenToThe n : ℚ) = 10 ^ n := by
  exact_mod_cast rfl

theorem zpow_eq_tenToThe_div (e : Int) :
    (10 : ℚ) ^ e = (tenToThe e.toNat : ℚ) / tenToThe (-e).toNat := by
  rw [cast_tenToThe, cast_tenToThe, ← zpow_natCast, ← zpow_natCast,
    ← zpow_sub₀ (by norm_num : (10 : ℚ) ≠ 0)]
  congr 1
  omega

namespace Decimal

/-- The number that digits and an exponent stand for. -/
def value (d : Decimal) : ℚ := d.digits * (10 : ℚ) ^ d.exponent

theorem value_dropZeros (fuel : Nat) (d : Decimal) : (d.dropZeros fuel).value = d.value := by
  induction fuel generalizing d with
  | zero => rfl
  | succ fuel ih =>
    rw [dropZeros]
    split
    · next h =>
      have hdigits : (d.digits : ℚ) = (d.digits / 10 : Nat) * 10 := by
        exact_mod_cast (Nat.div_mul_cancel (Nat.dvd_of_mod_eq_zero h.1)).symm
      rw [ih, value, value, hdigits, zpow_add_one₀ (by norm_num : (10 : ℚ) ≠ 0)]
      ring
    · rfl

end Decimal

namespace Shortest

open Binary64

variable {i : Interval} {tie : Tie}

theorem Interval.contains_of_has {n scale : Nat} (hscale : 0 < scale) (h : i.has n scale = true) :
    i.Contains ((n : ℚ) / scale) := by
  have hpos : (0 : ℚ) < scale := Nat.cast_pos.mpr hscale
  have hmul : (n : ℚ) / scale * i.den = (n * i.den : Nat) / scale := by
    push_cast
    ring
  by_cases hc : i.closed = true
  · simp only [has, hc, if_true, Bool.and_eq_true, decide_eq_true_eq] at h
    refine ⟨?_, ?_, fun hopen => by simp [hc] at hopen⟩
    · rw [hmul, le_div_iff₀ hpos]
      exact_mod_cast h.1
    · rw [hmul, div_le_iff₀ hpos]
      exact_mod_cast h.2
  · simp only [has, if_neg hc, Bool.and_eq_true, decide_eq_true_eq] at h
    have hlow : (i.low : ℚ) < (n : ℚ) / scale * i.den := by
      rw [hmul, lt_div_iff₀ hpos]
      exact_mod_cast h.1
    have hhigh : (n : ℚ) / scale * i.den < i.high := by
      rw [hmul, div_lt_iff₀ hpos]
      exact_mod_cast h.2
    exact ⟨hlow.le, hhigh.le, fun _ => ⟨hlow, hhigh⟩⟩

theorem Interval.has_of_lt {n scale : Nat} (hlow : i.low * scale < n * i.den)
    (hhigh : n * i.den < i.high * scale) : i.has n scale = true := by
  by_cases hc : i.closed = true
  · simp [has, hc, hlow.le, hhigh.le]
  · simp [has, hc, hlow, hhigh]

/-- The last multiple of `10 ^ unit` up to the value. -/
def Interval.below (i : Interval) (unit : Int) : Nat :=
  i.value * tenToThe (-unit).toNat / (i.den * tenToThe unit.toNat)

def Interval.hasMultiple (i : Interval) (unit : Int) (n : Nat) : Bool :=
  i.has (n * tenToThe unit.toNat) (tenToThe (-unit).toNat)

theorem onGrid_eq (tie : Tie) (i : Interval) (unit : Int) : ∃ above : Bool, onGrid tie i unit =
    if i.hasMultiple unit (i.below unit) &&
        (!i.hasMultiple unit (i.below unit + 1) || !above) then some ⟨i.below unit, unit⟩
    else if i.hasMultiple unit (i.below unit + 1) then some ⟨i.below unit + 1, unit⟩
    else none :=
  ⟨_, rfl⟩

theorem contains_of_hasMultiple {unit : Int} {n : Nat} (h : i.hasMultiple unit n = true) :
    i.Contains (Decimal.value ⟨n, unit⟩) := by
  have hvalue : Decimal.value ⟨n, unit⟩ =
      ((n * tenToThe unit.toNat : Nat) : ℚ) / (tenToThe (-unit).toNat : Nat) := by
    rw [Decimal.value, zpow_eq_tenToThe_div]
    push_cast
    ring
  rw [hvalue]
  exact Interval.contains_of_has (tenToThe_pos _) h

theorem contains_of_onGrid {unit : Int} {d : Decimal} (h : onGrid tie i unit = some d) :
    i.Contains d.value := by
  obtain ⟨above, heq⟩ := onGrid_eq tie i unit
  rw [heq] at h
  split at h
  · next hlow =>
    rw [Bool.and_eq_true] at hlow
    cases h
    exact contains_of_hasMultiple hlow.1
  · split at h
    · next hhigh =>
      cases h
      exact contains_of_hasMultiple hhigh
    · cases h

/-- A grid has a point in the interval if the value is more than half a step from both ends. -/
theorem exists_onGrid {unit : Int} (hden : 0 < i.den)
    (hlow : i.den * tenToThe unit.toNat + 2 * (i.low * tenToThe (-unit).toNat) <
      2 * (i.value * tenToThe (-unit).toNat))
    (hhigh : i.den * tenToThe unit.toNat + 2 * (i.value * tenToThe (-unit).toNat) <
      2 * (i.high * tenToThe (-unit).toNat)) :
    ∃ d, onGrid tie i unit = some d := by
  have hdiv := Nat.div_add_mod (i.value * tenToThe (-unit).toNat) (i.den * tenToThe unit.toNat)
  have hstep : ∀ n, n * tenToThe unit.toNat * i.den = i.den * tenToThe unit.toNat * n := by
    intro n
    ring
  have hnear : i.hasMultiple unit (i.below unit) = true ∨
      i.hasMultiple unit (i.below unit + 1) = true := by
    -- the nearer of the two neighbours is at most half a step away
    by_cases hhalf : 2 * (i.value * tenToThe (-unit).toNat % (i.den * tenToThe unit.toNat)) ≤
        i.den * tenToThe unit.toNat
    · left
      apply Interval.has_of_lt
      · rw [hstep, Interval.below]
        omega
      · rw [hstep, Interval.below]
        omega
    · right
      have hmod : i.value * tenToThe (-unit).toNat % (i.den * tenToThe unit.toNat) <
          i.den * tenToThe unit.toNat := Nat.mod_lt _ (Nat.mul_pos hden (tenToThe_pos _))
      apply Interval.has_of_lt
      · rw [hstep, Interval.below, Nat.mul_add, Nat.mul_one]
        omega
      · rw [hstep, Interval.below, Nat.mul_add, Nat.mul_one]
        omega
  obtain ⟨above, heq⟩ := onGrid_eq tie i unit
  rw [heq]
  split
  · exact ⟨_, rfl⟩
  · next hneither =>
    obtain hl | hh := hnear
    · cases hh : i.hasMultiple unit (i.below unit + 1) with
      | true => exact ⟨_, rfl⟩
      | false => simp [hl, hh] at hneither
    · exact ⟨_, if_pos hh⟩

theorem exists_search_eq {order : Int} {count fuel c : Nat} (hc : count ≤ c) (hc' : c < count + fuel)
    (hhit : ∃ d, onGrid tie i (order - c) = some d) :
    ∃ found ≤ c, ∃ d, onGrid tie i (order - found) = some d ∧
      search tie i order count fuel = d.dropZeros 20 := by
  induction fuel generalizing count with
  | zero => omega
  | succ fuel ih =>
    rw [search]
    split
    · next d hd => exact ⟨count, hc, d, hd, rfl⟩
    · next hnone =>
      have hne : count ≠ c := by
        rintro rfl
        obtain ⟨d, hd⟩ := hhit
        rw [hnone] at hd
        cases hd
      exact ih (by omega) (by omega)

theorem tenToThe_decimalLength_le {n : Nat} (hn : 0 < n) : tenToThe (decimalLength n - 1) ≤ n := by
  by_contra hlt
  have hpos : 0 < decimalLength n := Nat.length_toDigits_pos
  by_cases hone : decimalLength n - 1 = 0
  · rw [hone] at hlt
    exact hlt hn
  · have hle : decimalLength n ≤ decimalLength n - 1 :=
      (Nat.length_toDigits_le_iff (by decide) (by omega)).mpr (Nat.not_le.mp hlt)
    omega

theorem lt_tenToThe_decimalLength (n : Nat) : n < tenToThe (decimalLength n) :=
  (Nat.length_toDigits_le_iff (by decide) Nat.length_toDigits_pos).mp (Nat.le_refl _)

theorem decimalOrder_le {num den : Nat} (hnum : 0 < num) (hden : 0 < den) :
    den * tenToThe (decimalOrder num den - 1).toNat ≤
      num * tenToThe (-(decimalOrder num den - 1)).toNat := by
  have hone : tenToThe 0 = 1 := rfl
  rw [decimalOrder]
  split
  · next hle =>
    have hlen := tenToThe_decimalLength_le (Nat.div_pos hle hden)
    have hpos : 0 < decimalLength (num / den) := Nat.length_toDigits_pos
    have hup : ((decimalLength (num / den) : Int) - 1).toNat = decimalLength (num / den) - 1 := by
      omega
    have hdown : (-((decimalLength (num / den) : Int) - 1)).toNat = 0 := by omega
    rw [hup, hdown, hone, Nat.mul_one]
    exact (Nat.mul_le_mul_left den hlen).trans (Nat.mul_div_le num den)
  · have hpos : 0 < decimalLength (den / num) := Nat.length_toDigits_pos
    dsimp only
    split
    · next hle =>
      have hup : (2 - (decimalLength (den / num) : Int) - 1).toNat = 0 := by omega
      have hdown : (-(2 - (decimalLength (den / num) : Int) - 1)).toNat =
          decimalLength (den / num) - 1 := by omega
      rw [hup, hdown, hone, Nat.mul_one]
      exact hle
    · have hup : (1 - (decimalLength (den / num) : Int) - 1).toNat = 0 := by omega
      have hdown : (-(1 - (decimalLength (den / num) : Int) - 1)).toNat =
          decimalLength (den / num) := by omega
      rw [hup, hdown, hone, Nat.mul_one, Nat.mul_comm]
      exact ((Nat.div_lt_iff_lt_mul hnum).mp (lt_tenToThe_decimalLength _)).le

/-- A value whose distance from both ends is more than the `2 ^ 54`th part of it is at least half
a step of the grid of seventeen digits away from them. -/
theorem exists_onGrid_seventeen (hden : 0 < i.den) (hvalue : 0 < i.value)
    (hlow : i.value + 0x40000000000000 * i.low ≤ 0x40000000000000 * i.value)
    (hhigh : i.value + 0x40000000000000 * i.value ≤ 0x40000000000000 * i.high) :
    ∃ d, onGrid tie i (decimalOrder i.value i.den - 17) = some d := by
  generalize horder : decimalOrder i.value i.den = order
  have hle := decimalOrder_le hvalue hden
  rw [horder] at hle
  -- the step is at most the `10 ^ 16`th part of the value
  have hsplit : tenToThe (order - 17).toNat * tenToThe 16 * tenToThe (-(order - 1)).toNat =
      tenToThe (order - 1).toNat * tenToThe (-(order - 17)).toNat := by
    rw [← tenToThe_add, ← tenToThe_add, ← tenToThe_add]
    congr 1
    omega
  have hstep : i.den * tenToThe (order - 17).toNat * tenToThe 16 ≤
      i.value * tenToThe (-(order - 17)).toNat := by
    apply Nat.le_of_mul_le_mul_right _ (tenToThe_pos (-(order - 1)).toNat)
    calc i.den * tenToThe (order - 17).toNat * tenToThe 16 * tenToThe (-(order - 1)).toNat
        = i.den * tenToThe (order - 1).toNat * tenToThe (-(order - 17)).toNat := by
          rw [Nat.mul_assoc, Nat.mul_assoc, ← Nat.mul_assoc (tenToThe _), hsplit]
          ring
      _ ≤ i.value * tenToThe (-(order - 1)).toNat * tenToThe (-(order - 17)).toNat :=
          Nat.mul_le_mul_right _ hle
      _ = i.value * tenToThe (-(order - 17)).toNat * tenToThe (-(order - 1)).toNat := by ring
  have hsixteen : tenToThe 16 = 10000000000000000 := rfl
  have hpos : 0 < i.value * tenToThe (-(order - 17)).toNat := Nat.mul_pos hvalue (tenToThe_pos _)
  have hlow' := Nat.mul_le_mul_right (tenToThe (-(order - 17)).toNat) hlow
  have hhigh' := Nat.mul_le_mul_right (tenToThe (-(order - 17)).toNat) hhigh
  rw [hsixteen] at hstep
  rw [Nat.add_mul, Nat.mul_assoc, Nat.mul_assoc] at hlow' hhigh'
  exact exists_onGrid hden (by omega) (by omega)

theorem Interval.wide {x : Binary64} (hm : 0 < x.mantissa) : 0 < (Interval.of x).value ∧
    (Interval.of x).value + 0x40000000000000 * (Interval.of x).low ≤
      0x40000000000000 * (Interval.of x).value ∧
    (Interval.of x).value + 0x40000000000000 * (Interval.of x).value ≤
      0x40000000000000 * (Interval.of x).high := by
  have hup := twoToThe_pos x.exponent.toNat
  have hfraction : x.fraction < 0x10000000000000 := Nat.mod_lt _ (by decide)
  have hmantissa : x.mantissa < 0x20000000000000 := by
    rw [mantissa]
    split <;> omega
  set below := if x.fraction = 0 ∧ 1 < x.exponentField then 1 else 2 with hbelow
  have hsmall : 4 * x.mantissa + 0x40000000000000 * (4 * x.mantissa - below) ≤
      0x40000000000000 * (4 * x.mantissa) := by
    split at hbelow
    · next h =>
      have hpower : x.mantissa = 0x10000000000000 := by
        rw [mantissa, if_neg (by omega), h.1]
      omega
    · omega
  have hlarge : 4 * x.mantissa + 0x40000000000000 * (4 * x.mantissa) ≤
      0x40000000000000 * (4 * x.mantissa + 2) := by
    omega
  have hlow := Nat.mul_le_mul_right (twoToThe x.exponent.toNat) hsmall
  have hhigh := Nat.mul_le_mul_right (twoToThe x.exponent.toNat) hlarge
  refine ⟨Nat.mul_pos (by omega) hup, ?_, ?_⟩
  · simpa only [Interval.of, ← hbelow, Nat.add_mul, Nat.mul_assoc] using hlow
  · simpa only [Interval.of, Nat.add_mul, Nat.mul_assoc] using hhigh

/-- The digits of a double are a point of a grid of at most seventeen digits. -/
theorem exists_digits_eq (tie : Tie) {x : Binary64} (hm : 0 < x.mantissa) :
    ∃ count ≤ 17, ∃ d, onGrid tie (Interval.of x)
        (decimalOrder (Interval.of x).value (Interval.of x).den - (count : Nat)) = some d ∧
      digits tie x = d.dropZeros 20 := by
  obtain ⟨hvalue, hlow, hhigh⟩ := Interval.wide hm
  exact exists_search_eq (by decide) (by decide)
    (exists_onGrid_seventeen (Interval.den_pos x) hvalue hlow hhigh)

/-- The digits of a double stand for a number that reads back as it. -/
theorem contains_digits (tie : Tie) {x : Binary64} (hm : 0 < x.mantissa) :
    (Interval.of x).Contains (digits tie x).value := by
  obtain ⟨count, -, d, hd, hdigits⟩ := exists_digits_eq tie hm
  rw [hdigits, Decimal.value_dropZeros]
  exact contains_of_onGrid hd

end Shortest

end FieldPatch

import FieldPatch.Number.Basic
import FieldPatch.Proofs.Number.Binary64
import FieldPatch.Proofs.Number.Decimal

/-! Integers and the signed range. Where there is place for that range only, an integer above it is
a double, and so it is when it is read from its text. -/

namespace FieldPatch

/-- A number without the upper half of the unsigned range: an integer from there is the double
next to it. -/
def Number.signed : Number → Number
  | .whole n =>
    if h : n.value < 0x8000000000000000 then .whole n
    else .float (.ofInt n.value) (Binary64.isFinite_ofInt (Int.not_lt.mp h) n.inRange.2)
  | .float x finite => .float x finite

theorem Number.signed_eq_self_iff {n : Number} :
    n.signed = n ↔ ∀ k, n = .whole k → k.value < 0x8000000000000000 := by
  cases n with
  | float x finite => simp [signed]
  | whole k =>
    by_cases h : k.value < 0x8000000000000000
    · simp [signed, h]
    · simp [signed, h]

namespace Binary64

theorem ofDecimal_zero (negative : Bool) (n : Nat) : ofDecimal negative n 0 = ofRatio negative n 1 := by
  have hone : tenToThe 0 = 1 := rfl
  by_cases hn : n = 0
  · simp [ofDecimal, ofRatio, hn]
  · simp [ofDecimal, hn, hone]
    omega

theorem readMagnitude?_digits (negative : Bool) {ds : List Char} (hne : ds ≠ [])
    (hdigits : ∀ c ∈ ds, c.isDigit = true) :
    readMagnitude? negative ds = some (ofRatio negative (Digits.value 0 ds) 1) := by
  have hsplit : Digits.split ds = (ds, []) := by
    simp [Digits.split, List.takeWhile_eq_self_iff.mpr hdigits, List.dropWhile_eq_nil_iff.mpr hdigits]
  simp [readMagnitude?, hsplit, hne, readExponent?, ← ofDecimal_zero, Digits.value]

theorem toLower_of_isDigit {c : Char} (hc : c.isDigit = true) : c.toLower = c := by
  unfold Char.toLower
  simp [Char.isDigit] at hc
  grind

/-- Text that starts with a digit, behind a sign or not, is none of the words for odd values. -/
theorem read?_of_splitSign {cs ds : List Char} {negative : Bool} {d : Char}
    (h : splitSign cs = (negative, d :: ds)) (hd : d.isDigit = true) :
    read? cs = readMagnitude? negative (d :: ds) := by
  have hword : ∀ {c : Char} (w : List Char), c.isDigit = false → (d :: ds).map Char.toLower ≠ c :: w := by
    intro c w hc heq
    rw [List.map_cons, toLower_of_isDigit hd] at heq
    obtain rfl := (List.cons.inj heq).1
    rw [hd] at hc
    cases hc
  have hinf : (d :: ds).map Char.toLower ≠ "inf".toList := hword _ (by decide)
  have hinfinity : (d :: ds).map Char.toLower ≠ "infinity".toList := hword _ (by decide)
  have hnan : (d :: ds).map Char.toLower ≠ "nan".toList := hword _ (by decide)
  simp only [read?, h, beq_eq_false_iff_ne.mpr hinf, beq_eq_false_iff_ne.mpr hinfinity,
    beq_eq_false_iff_ne.mpr hnan]
  rfl

/-- The text of an integer is read as the double nearest to it. -/
theorem read?_toString (n : Int) : read? (toString n).toList = some (ofInt n) := by
  cases n with
  | ofNat n =>
    obtain ⟨d, ds, hd, hall⟩ := exists_toDigits_eq_cons n
    have hv := value_toDigits n
    rw [hd] at hv
    have hread := readMagnitude?_digits false (List.cons_ne_nil d ds) hall
    rw [Int.ofNat_eq_natCast, toList_toString_ofNat, hd,
      read?_of_splitSign (splitSign_of_isDigit (hall d (by simp)) ds) (hall d (by simp)), hread, hv]
    have hsign : decide ((n : Int) < 0) = false := by simp
    rw [ofInt, hsign, Int.natAbs_natCast]
  | negSucc n =>
    obtain ⟨d, ds, hd, hall⟩ := exists_toDigits_eq_cons (n + 1)
    have hv := value_toDigits (n + 1)
    rw [hd] at hv
    have hread := readMagnitude?_digits true (List.cons_ne_nil d ds) hall
    have hsign : splitSign ('-' :: d :: ds) = (true, d :: ds) := rfl
    rw [toList_toString_negSucc, hd, read?_of_splitSign hsign (hall d (by simp)), hread, hv]
    simp [ofInt]

end Binary64

theorem fitsSigned64_iff (n : Whole) :
    fitsSigned64 n.value = true ↔ n.value < 0x8000000000000000 := by
  simp [fitsSigned64, n.inRange.1]

/-- The text of an integer is read as that integer in the signed range, above it as a double. -/
theorem Number.read?_toString (n : Whole) :
    read? (toString n.value) = some (signed (.whole n)) := by
  by_cases h : n.value < 0x8000000000000000
  · have hfits := readSigned64?_toString ((fitsSigned64_iff n).mpr h)
    rw [read?, hfits]
    simp [ofInt?, Whole.ofInt?, n.inRange, signed, h]
  · have hnone : readSigned64? (toString n.value).toList = none := by
      rw [readSigned64?, readInt?_toString, Option.filter_some, if_neg (mt (fitsSigned64_iff n).mp h)]
    have hfinite := Binary64.isFinite_ofInt (Int.not_lt.mp h) n.inRange.2
    rw [read?, hnone, Binary64.read?_toString]
    simp [ofFloat?, hfinite, signed, h]

end FieldPatch

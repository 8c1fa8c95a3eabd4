import FieldPatch.Number.Reading

/-! Integers in decimal: digits, with a minus sign in front of those of negative ones. What is
written is read back. -/

namespace FieldPatch

theorem value_toDigits (n : Nat) : Digits.value 0 (Nat.toDigits 10 n) = n :=
  Nat.ofDigitChars_ten_toDigits

theorem exists_toDigits_eq_cons (n : Nat) :
    ∃ d ds, Nat.toDigits 10 n = d :: ds ∧ ∀ c ∈ d :: ds, c.isDigit = true := by
  cases h : Nat.toDigits 10 n with
  | nil => exact absurd h Nat.toDigits_ne_nil
  | cons d ds =>
    exact ⟨d, ds, rfl, fun c hc => Nat.isDigit_of_mem_toDigits (by decide) (by decide) (h ▸ hc)⟩

theorem toList_toString_ofNat (n : Nat) : (toString (n : Int)).toList = Nat.toDigits 10 n := by
  rw [Int.toString_eq_repr, Int.repr_eq_if, if_pos (Int.natCast_nonneg n), Int.toNat_natCast,
    Nat.repr_eq_ofList_toDigits, String.toList_ofList]

theorem toList_toString_negSucc (n : Nat) :
    (toString (Int.negSucc n)).toList = '-' :: Nat.toDigits 10 (n + 1) := by
  have hn : (-Int.negSucc n).toNat = n + 1 := rfl
  rw [Int.toString_eq_repr, Int.repr_eq_if, if_neg (by omega), hn,
    Nat.repr_eq_ofList_toDigits]
  simp

/-- What is written for an integer: a digit, or a minus sign before some, and further digits. -/
theorem exists_toString_eq_cons (n : Int) : ∃ c w, (toString n).toList = c :: w ∧
    (c.isDigit = true ∨ c = '-' ∧ w ≠ []) ∧ ∀ d ∈ w, d.isDigit = true := by
  cases n with
  | ofNat n =>
    obtain ⟨d, ds, hd, hall⟩ := exists_toDigits_eq_cons n
    refine ⟨d, ds, (toList_toString_ofNat n).trans hd, .inl (hall d List.mem_cons_self), ?_⟩
    exact fun c hc => hall c (List.mem_cons_of_mem d hc)
  | negSucc n =>
    obtain ⟨d, ds, hd, hall⟩ := exists_toDigits_eq_cons (n + 1)
    refine ⟨'-', d :: ds, ?_, .inr ⟨rfl, List.cons_ne_nil d ds⟩, hall⟩
    rw [toList_toString_negSucc, hd]

theorem splitSign_of_isDigit {c : Char} (hc : c.isDigit = true) (cs : List Char) :
    splitSign (c :: cs) = (false, c :: cs) := by
  unfold splitSign
  split
  · next h => cases h; cases hc
  · next h => cases h; cases hc
  · rfl

theorem readInt?_toString (n : Int) : readInt? (toString n).toList = some n := by
  cases n with
  | ofNat n =>
    obtain ⟨d, ds, hd, hall⟩ := exists_toDigits_eq_cons n
    have hv := value_toDigits n
    rw [hd] at hv
    rw [Int.ofNat_eq_natCast, toList_toString_ofNat, hd, readInt?,
      splitSign_of_isDigit (hall d List.mem_cons_self)]
    simp [List.all_eq_true.mpr hall, hv]
  | negSucc n =>
    obtain ⟨d, ds, hd, hall⟩ := exists_toDigits_eq_cons (n + 1)
    have hv := value_toDigits (n + 1)
    rw [hd] at hv
    rw [toList_toString_negSucc, hd, readInt?]
    simp [splitSign, List.all_eq_true.mpr hall, hv, Int.negSucc_eq]

theorem readSigned64?_toString {n : Int} (h : fitsSigned64 n = true) :
    readSigned64? (toString n).toList = some n := by
  rw [readSigned64?, readInt?_toString, Option.filter_some, if_pos h]

end FieldPatch

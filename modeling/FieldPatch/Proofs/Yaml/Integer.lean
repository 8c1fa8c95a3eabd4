import FieldPatch.Proofs.Number.Decimal
import FieldPatch.Yaml.Scalar

/-! Integers as plain scalars: the decimal text of an integer stands for that integer. -/

namespace FieldPatch

theorem eq_zero_of_head?_toDigits {n : Nat} (h : (Nat.toDigits 10 n).head? = some '0') : n = 0 := by
  induction n using Nat.strongRecOn with
  | _ n ih =>
    rw [Nat.toDigits_eq_if (by decide)] at h
    split at h
    · next hn =>
      have hdigit : ∀ m < 10, Nat.digitChar m = '0' → m = 0 := by decide
      exact hdigit n hn (Option.some.inj h)
    · next hn =>
      obtain ⟨d, ds, hd, -⟩ := exists_toDigits_eq_cons (n / 10)
      rw [hd] at h
      have hzero := ih (n / 10) (by omega) (by rw [hd]; exact h)
      omega

namespace Yaml

theorem digitIn?_of_isDigit {c : Char} (hc : c.isDigit = true) :
    digitIn? 10 c = some (c.toNat - '0'.toNat) := by
  have hle : c.toNat ≤ '9'.toNat := by
    simp only [Char.isDigit, Bool.and_eq_true, decide_eq_true_eq, UInt32.le_iff_toNat_le] at hc
    exact hc.2
  have hlt : c.toNat - '0'.toNat < 10 := Nat.lt_of_le_of_lt (Nat.sub_le_sub_right hle _) (by decide)
  simp only [digitIn?, hc, if_true, hlt]

theorem foldlM_digits {cs : List Char} (h : ∀ c ∈ cs, c.isDigit = true) (start : Nat) :
    cs.foldlM (fun n c => do return n * 10 + (← digitIn? 10 c)) start =
      some (Digits.value start cs) := by
  induction cs generalizing start with
  | nil => rfl
  | cons c cs ih =>
    have hc := digitIn?_of_isDigit (h c List.mem_cons_self)
    have hrest := ih (fun d hd => h d (List.mem_cons_of_mem c hd)) (start * 10 + (c.toNat - '0'.toNat))
    rw [List.foldlM_cons, hc, Digits.value, List.foldl_cons, Nat.mul_comm 10]
    exact hrest

theorem readDigits?_digits {c : Char} {cs : List Char} (h : ∀ d ∈ c :: cs, d.isDigit = true) :
    readDigits? 10 (c :: cs) = some (Digits.value 0 (c :: cs)) :=
  foldlM_digits h 0

theorem baseOf?_of_isDigit {c : Char} (hc : c.isDigit = true) : baseOf? c = none := by
  unfold baseOf?
  split <;> first | rfl | cases hc

/-- Digits without a needless zero in front, behind a sign or not, are read as their number. -/
theorem readInteger?_of_splitSign {text : String} {negative : Bool} {n : Nat}
    (h : splitSign text.toList = (negative, Nat.toDigits 10 n)) : readInteger? text =
      if negative then (if n ≤ 0x80000000000000000000000000000000 then some (-(n : Int)) else none)
      else if n < 0x100000000000000000000000000000000 then some (n : Int) else none := by
  obtain ⟨d, ds, hd, hall⟩ := exists_toDigits_eq_cons n
  have hvalue := value_toDigits n
  have hread := readDigits?_digits hall
  rw [← hd, hvalue] at hread
  -- only zero itself has a zero in front
  have hpadded : isZeroPadded text.toList = false := by
    rw [isZeroPadded, h]
    split
    · next rest hrest =>
      change Nat.toDigits 10 n = '0' :: rest at hrest
      have hn := eq_zero_of_head?_toDigits (n := n) (by rw [hrest]; rfl)
      rw [hn, Nat.toDigits_zero] at hrest
      cases hrest
      rfl
    · rfl
  unfold readInteger?
  simp only [h, hpadded, hread]
  split
  · next m hm =>
    -- no digit names a base
    split at hm
    · next letter digits hdigits =>
      rw [baseOf?_of_isDigit (hall letter (by simp [← hd, hdigits]))] at hm
      cases hm
    · cases hm
  · rfl

theorem readInteger?_toString (n : Whole) : readInteger? (toString n.value) = some n.value := by
  obtain ⟨n, hlow, hhigh⟩ := n
  dsimp only
  cases n with
  | ofNat m =>
    have hsign : splitSign (toString (m : Int)).toList = (false, Nat.toDigits 10 m) := by
      obtain ⟨d, ds, hd, hall⟩ := exists_toDigits_eq_cons m
      rw [toList_toString_ofNat, hd, splitSign_of_isDigit (hall d List.mem_cons_self)]
    rw [Int.ofNat_eq_natCast] at hhigh ⊢
    rw [readInteger?_of_splitSign hsign, if_neg Bool.false_ne_true, if_pos (by omega)]
  | negSucc m =>
    have hsign : splitSign (toString (Int.negSucc m)).toList = (true, Nat.toDigits 10 (m + 1)) := by
      rw [toList_toString_negSucc]
      rfl
    rw [readInteger?_of_splitSign hsign, if_pos rfl, if_pos (by omega)]
    rfl

/-- The text of an integer starts with a digit or a minus sign, as no word does. -/
theorem toString_notMem_words (n : Int) (words : List String)
    (h : words.all (fun w => w.toList.head?.all fun c => !c.isDigit && c != '-') = true) :
    toString n ∉ words := by
  intro hmem
  have hhead := List.all_eq_true.mp h _ hmem
  obtain ⟨c, w, hcw, hc, -⟩ := exists_toString_eq_cons n
  simp only [hcw, List.head?_cons, Option.all_some, Bool.and_eq_true, Bool.not_eq_true',
    bne_iff_ne] at hhead
  rcases hc with hc | ⟨rfl, -⟩
  · rw [hc] at hhead
    cases hhead.1
  · exact hhead.2 rfl

theorem isAbsentText_toString (n : Int) :
    ((toString n).isEmpty || isNullWord (toString n)) = false := by
  have hwords := toString_notMem_words n ["", "null", "Null", "NULL", "~"] (by decide)
  generalize toString n = s at hwords ⊢
  simp only [List.mem_cons, List.not_mem_nil, or_false, not_or] at hwords
  simp [isNullWord, hwords]

theorem boolWord?_toString (n : Int) : boolWord? (toString n) = none := by
  have hwords := toString_notMem_words n
    ["true", "True", "TRUE", "false", "False", "FALSE"] (by decide)
  generalize toString n = s at hwords ⊢
  simp only [List.mem_cons, List.not_mem_nil, or_false, not_or] at hwords
  simp [boolWord?, hwords]

/-- An integer of a document, written in decimal, is that integer. -/
theorem resolvePlain_toString (n : Whole) : resolvePlain (toString n.value) = some (.whole n) := by
  rw [resolvePlain, isAbsentText_toString, boolWord?_toString, readInteger?_toString]
  simp [integerScalar, Whole.ofInt?, n.inRange]

end Yaml

end FieldPatch

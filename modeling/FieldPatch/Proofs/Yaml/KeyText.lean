import FieldPatch.Proofs.Number.Layout
import FieldPatch.Yaml.Reader

/-! The texts of keys. Two scalars that are not text themselves have the same text only if they are
the same scalar. -/

namespace FieldPatch

namespace Binary64

variable {x y : Binary64}

theorem isFinite_of_not_special (hnan : x.isNaN = false) (hinf : x.isInfinite = false) :
    x.isFinite = true := by
  simp only [isNaN, isInfinite, isFinite, Bool.and_eq_false_iff, beq_eq_false_iff_ne, bne_iff_ne,
    bne_eq_false_iff_eq] at *
  omega

theorem eq_of_isInfinite (hx : x.isInfinite = true) (hy : y.isInfinite = true)
    (hsign : x.isNegative = y.isNegative) : x = y := by
  apply eq_of_magnitudeBits_eq hsign
  simp only [isInfinite, exponentField_eq, fraction_eq, Bool.and_eq_true, beq_iff_eq] at hx hy
  omega

theorem sameNumber_self (x : Binary64) : x.sameNumber x = true := by
  simp [sameNumber]

end Binary64

namespace FloatLayout

variable {x y : Binary64}

theorem pointZero_yaml : yaml.pointZero = true := rfl

theorem render_yaml_of_isNaN (hx : x.isNaN = true) : yaml.render x = ".nan" := by
  rw [render, if_pos hx]
  rfl

theorem render_yaml_of_isInfinite (hx : x.isInfinite = true) :
    yaml.render x = if x.isNegative then "-.inf" else ".inf" := by
  have hnan : x.isNaN = false := by
    simp only [Binary64.isInfinite, Bool.and_eq_true, beq_iff_eq] at hx
    simp [Binary64.isNaN, hx.2]
  rw [render, hnan, hx]
  rfl

theorem render_yaml_ne_special (hx : x.isFinite = true) {s : String}
    (hs : s ∈ [".nan", ".inf", "-.inf"]) : yaml.render x ≠ s := by
  rintro rfl
  obtain ⟨c, w, hcw, -, hc, -⟩ := toList_render pointZero_yaml hx
  have hpoint : '.' ≠ c := (ne_of_isDigit hc (by decide)).symm
  have hminus : '-' ≠ c := (ne_of_isDigit hc (by decide)).symm
  have hnan : (".nan" : String).toList = ['.', 'n', 'a', 'n'] := by decide
  have hinf : (".inf" : String).toList = ['.', 'i', 'n', 'f'] := by decide
  have hneg : ("-.inf" : String).toList = ['-', '.', 'i', 'n', 'f'] := by decide
  simp only [List.mem_cons, List.not_mem_nil, or_false] at hs
  obtain h | h | h := hs <;> rw [h] at hcw <;> cases hsign : x.isNegative <;>
    simp [hsign, hnan, hinf, hneg, hpoint, hminus] at hcw

theorem finite_or_special (x : Binary64) :
    x.isFinite = true ∨ x.isNaN = true ∨ x.isInfinite = true := by
  cases hnan : x.isNaN with
  | true => exact .inr (.inl rfl)
  | false =>
    cases hinf : x.isInfinite with
    | true => exact .inr (.inr rfl)
    | false => exact .inl (Binary64.isFinite_of_not_special hnan hinf)

theorem render_yaml_mem_special (hx : x.isNaN = true ∨ x.isInfinite = true) :
    yaml.render x ∈ [".nan", ".inf", "-.inf"] := by
  obtain hx | hx := hx
  · simp [render_yaml_of_isNaN hx]
  · rw [render_yaml_of_isInfinite hx]
    cases x.isNegative <;> simp

theorem sameNumber_of_special (hx : x.isNaN = true ∨ x.isInfinite = true)
    (hy : y.isNaN = true ∨ y.isInfinite = true) (h : yaml.render x = yaml.render y) :
    x.sameNumber y = true := by
  obtain hx | hx := hx
  · obtain hy | hy := hy
    · simp [Binary64.sameNumber, hx, hy]
    · rw [render_yaml_of_isNaN hx, render_yaml_of_isInfinite hy] at h
      cases hsign : y.isNegative <;> rw [hsign] at h <;> exact absurd h (by decide)
  · obtain hy | hy := hy
    · rw [render_yaml_of_isInfinite hx, render_yaml_of_isNaN hy] at h
      cases hsign : x.isNegative <;> rw [hsign] at h <;> exact absurd h (by decide)
    · rw [render_yaml_of_isInfinite hx, render_yaml_of_isInfinite hy] at h
      have hsign : x.isNegative = y.isNegative := by
        cases hxs : x.isNegative <;> cases hys : y.isNegative <;> rw [hxs, hys] at h <;>
          first | rfl | exact absurd h (by decide)
      rw [Binary64.eq_of_isInfinite hx hy hsign]
      exact Binary64.sameNumber_self y

/-- Doubles are written alike only if they are the same number. -/
theorem sameNumber_of_render_yaml_eq (h : yaml.render x = yaml.render y) :
    x.sameNumber y = true := by
  obtain hx | hx := finite_or_special x
  · obtain hy | hy := finite_or_special y
    · rw [render_injective pointZero_yaml hx hy h]
      exact Binary64.sameNumber_self y
    · exact absurd h (render_yaml_ne_special hx (render_yaml_mem_special hy))
  · obtain hy | hy := finite_or_special y
    · exact absurd h.symm (render_yaml_ne_special hy (render_yaml_mem_special hx))
    · exact sameNumber_of_special hx hy h

theorem toList_render_yaml (x : Binary64) : ∃ c w, (yaml.render x).toList = c :: w ∧
    (c.isDigit = true ∨ c = '-' ∨ c = '.') ∧ ∃ d ∈ c :: w, d = '.' ∨ d = 'e' := by
  obtain hx | hx := finite_or_special x
  · obtain ⟨c, w, hcw, -, hc, d, hd, hmark⟩ := toList_render pointZero_yaml hx
    cases hsign : x.isNegative with
    | true =>
      rw [hsign] at hcw
      exact ⟨'-', c :: w, hcw, .inr (.inl rfl), d, by simp [hd], hmark⟩
    | false =>
      rw [hsign] at hcw
      exact ⟨c, w, hcw, .inl hc, d, by simp [hd], hmark⟩
  · have hmem := render_yaml_mem_special hx
    simp only [List.mem_cons, List.not_mem_nil, or_false] at hmem
    obtain h | h | h := hmem <;> rw [h]
    · exact ⟨'.', ['n', 'a', 'n'], by decide, .inr (.inr rfl), '.', by simp, .inl rfl⟩
    · exact ⟨'.', ['i', 'n', 'f'], by decide, .inr (.inr rfl), '.', by simp, .inl rfl⟩
    · exact ⟨'-', ['.', 'i', 'n', 'f'], by decide, .inr (.inl rfl), '.', by simp, .inl rfl⟩

end FloatLayout

namespace Yaml

theorem toString_ne_render (n : Int) (x : Binary64) : toString n ≠ FloatLayout.yaml.render x := by
  obtain ⟨c, w, hcw, -, hmark⟩ := FloatLayout.toList_render_yaml x
  exact toString_ne_of_mark n (hcw ▸ hmark)

def scalarWords : List String := ["null", "true", "false"]

theorem ne_word {s : String} {c : Char} {w : List Char} (hs : s.toList = c :: w)
    (hc : c.isDigit = true ∨ c = '-' ∨ c = '.') {word : String} (hword : word ∈ scalarWords) :
    s ≠ word := by
  rintro rfl
  simp only [scalarWords, List.mem_cons, List.not_mem_nil, or_false] at hword
  have hnull : ("null" : String).toList = ['n', 'u', 'l', 'l'] := by decide
  have htrue : ("true" : String).toList = ['t', 'r', 'u', 'e'] := by decide
  have hfalse : ("false" : String).toList = ['f', 'a', 'l', 's', 'e'] := by decide
  obtain h | h | h := hword <;> rw [h] at hs <;> simp only [hnull, htrue, hfalse] at hs <;>
    obtain ⟨rfl, -⟩ := List.cons.inj hs <;> revert hc <;> decide

namespace Scalar

def isText : Scalar → Bool
  | .text _ => true
  | _ => false

def isNumber : Scalar → Bool
  | .whole _ | .float _ => true
  | _ => false

theorem eq_text_of_isText {a : Scalar} (h : a.isText = true) : a = .text a.keyText := by
  cases a <;> first | rfl | cases h

theorem keyText_mem_scalarWords {a : Scalar} (ht : a.isText = false) (hn : a.isNumber = false) :
    a.keyText ∈ scalarWords := by
  cases a with
  | null => decide
  | bool b => cases b <;> decide
  | whole n => cases hn
  | float x => cases hn
  | text s => cases ht

theorem keyText_ne_word {a : Scalar} (ha : a.isNumber = true) {word : String}
    (hword : word ∈ scalarWords) : a.keyText ≠ word := by
  cases a with
  | null => cases ha
  | bool b => cases ha
  | text s => cases ha
  | whole n =>
    obtain ⟨c, w, hcw, hc, -⟩ := exists_toString_eq_cons n.value
    exact ne_word hcw (hc.imp id fun h => .inl h.1) hword
  | float x =>
    obtain ⟨c, w, hcw, hc, -⟩ := FloatLayout.toList_render_yaml x
    exact ne_word hcw hc hword

theorem same_of_number {a b : Scalar} (ha : a.isNumber = true) (hb : b.isNumber = true)
    (h : a.keyText = b.keyText) : a.same b = true := by
  cases a with
  | null => cases ha
  | bool _ => cases ha
  | text _ => cases ha
  | whole n =>
    cases b with
    | null => cases hb
    | bool _ => cases hb
    | text _ => cases hb
    | whole m =>
      have hvalue : n.value = m.value := eq_of_toString_eq h
      cases n
      cases m
      cases hvalue
      simp [same]
    | float y => exact absurd h (toString_ne_render n.value y)
  | float x =>
    cases b with
    | null => cases hb
    | bool _ => cases hb
    | text _ => cases hb
    | whole m => exact absurd h.symm (toString_ne_render m.value x)
    | float y => exact FloatLayout.sameNumber_of_render_yaml_eq h

theorem same_of_word {a b : Scalar} (ha : a.isText = false) (ha' : a.isNumber = false)
    (hb : b.isText = false) (hb' : b.isNumber = false) (h : a.keyText = b.keyText) :
    a.same b = true := by
  cases a with
  | null =>
    cases b with
    | null => rfl
    | bool c => cases c <;> exact absurd h (by decide)
    | _ => simp_all [isText, isNumber]
  | bool c =>
    cases b with
    | null => cases c <;> exact absurd h (by decide)
    | bool c' => cases c <;> cases c' <;> first | rfl | exact absurd h (by decide)
    | _ => simp_all [isText, isNumber]
  | _ => simp_all [isText, isNumber]

/-- Only a text can have the text of another scalar. -/
theorem same_of_keyText_eq {a b : Scalar} (ha : a.isText = false) (hb : b.isText = false)
    (h : a.keyText = b.keyText) : a.same b = true := by
  cases hna : a.isNumber with
  | true =>
    cases hnb : b.isNumber with
    | true => exact same_of_number hna hnb h
    | false => exact absurd h (keyText_ne_word hna (keyText_mem_scalarWords hb hnb))
  | false =>
    cases hnb : b.isNumber with
    | true => exact absurd h.symm (keyText_ne_word hnb (keyText_mem_scalarWords ha hna))
    | false => exact same_of_word ha hna hb hnb h

end Scalar

end Yaml

end FieldPatch

import FieldPatch.Proofs.Number.Decimal
import FieldPatch.Proofs.Number.Shortest
import FieldPatch.Number.Basic

/-! The texts of doubles: finite doubles are written alike only if they are the same. -/

namespace FieldPatch

namespace Digits

theorem value_append (start : Nat) (a b : List Char) :
    value start (a ++ b) = value (value start a) b :=
  List.foldl_append

theorem value_zeros (start n : Nat) : value start (List.replicate n '0') = start * tenToThe n := by
  induction n generalizing start with
  | zero => exact (Nat.mul_one start).symm
  | succ n ih =>
    have hzero : value start (List.replicate (n + 1) '0') = value (10 * start) (List.replicate n '0') :=
      rfl
    rw [hzero, ih, tenToThe_add]
    simp only [tenToThe, Nat.pow_eq, Nat.pow_one]
    ring

end Digits

namespace FloatLayout

/-- Digits with a point among them, and the number they stand for. -/
def Positional (cs : List Char) (q : ℚ) : Prop :=
  ∃ a b, cs = a ++ '.' :: b ∧ a ≠ [] ∧ (∀ c ∈ a ++ b, c.isDigit = true) ∧
    q = Digits.value 0 (a ++ b) / 10 ^ b.length

/-- Digits, a point behind the first of them, with a power of ten, and the number they stand for. -/
def Scientific (cs : List Char) (q : ℚ) : Prop :=
  ∃ (c : Char) (a b : List Char) (p : Int), cs = c :: a ++ 'e' :: b ∧ c.isDigit = true ∧
    'e' ∉ c :: a ∧ 'e' ∉ b ∧ readInt? b = some p ∧
    q = Digits.value 0 ((c :: a).filter (· != '.')) *
      (10 : ℚ) ^ (p + 1 - ((c :: a).filter (· != '.')).length)

def Denotes (cs : List Char) (q : ℚ) : Prop := Positional cs q ∨ Scientific cs q

theorem ne_of_isDigit {c d : Char} (hc : c.isDigit = true) (hd : d.isDigit = false) : c ≠ d := by
  rintro rfl
  rw [hc] at hd
  cases hd

theorem notMem_of_isDigit {cs : List Char} (h : ∀ c ∈ cs, c.isDigit = true) {d : Char}
    (hd : d.isDigit = false) : d ∉ cs :=
  fun hm => ne_of_isDigit (h d hm) hd rfl

theorem Positional.unique {cs : List Char} {q r : ℚ} (hq : Positional cs q) (hr : Positional cs r) :
    q = r := by
  obtain ⟨a, b, rfl, -, hdigits, rfl⟩ := hq
  obtain ⟨a', b', heq, -, -, rfl⟩ := hr
  have hpoint := notMem_of_isDigit hdigits (d := '.') (by decide)
  rw [List.mem_append, not_or] at hpoint
  obtain ⟨rfl, -, rfl⟩ := (List.append_cons_inj_of_notMem hpoint.1 hpoint.2).mp heq
  rfl

theorem Scientific.unique {cs : List Char} {q r : ℚ} (hq : Scientific cs q) (hr : Scientific cs r) :
    q = r := by
  obtain ⟨c, a, b, p, rfl, -, ha, hb, hp, rfl⟩ := hq
  obtain ⟨c', a', b', p', heq, -, -, -, hp', rfl⟩ := hr
  obtain ⟨hm, -, rfl⟩ := (List.append_cons_inj_of_notMem ha hb).mp heq
  obtain rfl : p = p' := Option.some.inj (hp.symm.trans hp')
  rw [hm]

theorem Positional.not_scientific {cs : List Char} {q r : ℚ} (hq : Positional cs q) :
    ¬ Scientific cs r := by
  obtain ⟨a, b, rfl, -, hdigits, -⟩ := hq
  rintro ⟨c, a', b', p, heq, -⟩
  have hletter := notMem_of_isDigit hdigits (d := 'e') (by decide)
  have hmem : 'e' ∈ a ++ '.' :: b := heq ▸ by simp
  simp only [List.mem_append, List.mem_cons, not_or] at hletter hmem
  obtain hm | hm | hm := hmem
  · exact hletter.1 hm
  · cases hm
  · exact hletter.2 hm

theorem Denotes.unique {cs : List Char} {q r : ℚ} (hq : Denotes cs q) (hr : Denotes cs r) :
    q = r := by
  obtain hq | hq := hq
  · obtain hr | hr := hr
    · exact hq.unique hr
    · exact absurd hr hq.not_scientific
  · obtain hr | hr := hr
    · exact absurd hq hr.not_scientific
    · exact hq.unique hr

theorem Denotes.cons_isDigit {cs : List Char} {q : ℚ} (h : Denotes cs q) :
    ∃ c w, cs = c :: w ∧ c.isDigit = true ∧ ∃ d ∈ w, d = '.' ∨ d = 'e' := by
  obtain ⟨a, b, rfl, ha, hdigits, -⟩ | ⟨c, a, b, p, rfl, hc, -⟩ := h
  · obtain ⟨c, a, rfl⟩ := List.exists_cons_of_ne_nil ha
    exact ⟨c, a ++ '.' :: b, rfl, hdigits c (by simp), '.', by simp, .inl rfl⟩
  · exact ⟨c, a ++ 'e' :: b, rfl, hc, 'e', by simp, .inr rfl⟩

variable {l : FloatLayout}

theorem toList_toString_nat (n : Nat) : (toString n).toList = Nat.toDigits 10 n := by
  rw [Nat.toString_eq_ofList_toDigits, String.toList_ofList]

theorem value_eq_div {d : Decimal} {n : Nat} (h : d.exponent = -(n : Int)) :
    d.value = d.digits / 10 ^ n := by
  rw [Decimal.value, h, zpow_neg, zpow_natCast, div_eq_mul_inv]

theorem isDigit_of_mem_zeros {n : Nat} {c : Char} (h : c ∈ List.replicate n '0') :
    c.isDigit = true := by
  rw [List.eq_of_mem_replicate h]
  decide

theorem positional_integral {ds : List Char} (hne : ds ≠ []) (hdigits : ∀ c ∈ ds, c.isDigit = true)
    (k : Nat) :
    Positional (ds ++ List.replicate k '0' ++ '.' :: List.replicate 1 '0')
      (Digits.value 0 ds * 10 ^ k) := by
  refine ⟨ds ++ List.replicate k '0', List.replicate 1 '0', rfl, by simp [hne], ?_, ?_⟩
  · intro c hc
    simp only [List.mem_append] at hc
    obtain (hc | hc) | hc := hc
    · exact hdigits c hc
    · exact isDigit_of_mem_zeros hc
    · exact isDigit_of_mem_zeros hc
  · rw [Digits.value_append, Digits.value_append, Digits.value_zeros, Digits.value_zeros,
      List.length_replicate]
    push_cast [cast_tenToThe]
    ring

theorem positional_pointed {ds : List Char} (hdigits : ∀ c ∈ ds, c.isDigit = true) {k : Nat}
    (hk : 0 < k) (hk' : k < ds.length) :
    Positional (ds.take k ++ '.' :: ds.drop k) (Digits.value 0 ds / 10 ^ (ds.length - k)) := by
  refine ⟨ds.take k, ds.drop k, rfl, ?_, ?_, ?_⟩
  · intro hnil
    have hlength := congrArg List.length hnil
    rw [List.length_take, List.length_nil] at hlength
    omega
  · rwa [List.take_append_drop]
  · rw [List.take_append_drop, List.length_drop]

theorem positional_below_one {ds : List Char} (hdigits : ∀ c ∈ ds, c.isDigit = true) (k : Nat) :
    Positional ('0' :: '.' :: (List.replicate k '0' ++ ds))
      (Digits.value 0 ds / 10 ^ (k + ds.length)) := by
  refine ⟨['0'], List.replicate k '0' ++ ds, rfl, by simp, ?_, ?_⟩
  · intro c hc
    simp only [List.mem_append] at hc
    obtain hc | hc | hc := hc
    · exact isDigit_of_mem_zeros (n := 1) hc
    · exact isDigit_of_mem_zeros hc
    · exact hdigits c hc
  · have hzero : Digits.value 0 ['0'] = 0 := rfl
    rw [Digits.value_append, Digits.value_append, hzero, Digits.value_zeros, Nat.zero_mul,
      List.length_append, List.length_replicate]

theorem denotes_positional (hl : l.pointZero = true) (d : Decimal) :
    Denotes (l.positional d).toList d.value := by
  obtain ⟨c, cs, hcs, hdigits⟩ := exists_toDigits_eq_cons d.digits
  generalize hds : c :: cs = ds at hcs hdigits
  have hvalue : Digits.value 0 ds = d.digits := hcs ▸ value_toDigits d.digits
  have hlength : (toString d.digits).length = ds.length := by
    rw [← String.length_toList, toList_toString_nat, hcs]
  simp only [positional, hl, hlength]
  left
  split
  · next hexp =>
    obtain ⟨n, hn⟩ := Int.eq_ofNat_of_zero_le hexp
    have hpositional := positional_integral (hds ▸ List.cons_ne_nil c cs) hdigits n
    have hscaled : d.value = d.digits * 10 ^ n := by
      rw [Decimal.value, hn, zpow_natCast]
    rw [hvalue, ← hscaled] at hpositional
    simpa [hcs, zeros, hn] using hpositional
  · obtain ⟨n, hn⟩ : ∃ n : Nat, d.exponent = -(n : Int) := ⟨(-d.exponent).toNat, by omega⟩
    rw [value_eq_div hn]
    split
    · next hpoint =>
      generalize hk : (d.exponent + (ds.length : Int)).toNat = k
      have hpositional := positional_pointed hdigits (k := k) (by omega) (by omega)
      have hplaces : ds.length - k = n := by omega
      rw [hplaces, hvalue] at hpositional
      simpa [hcs] using hpositional
    · generalize hk : (-(d.exponent + (ds.length : Int))).toNat = k
      have hpositional := positional_below_one hdigits k
      have hplaces : k + ds.length = n := by omega
      rw [hplaces, hvalue] at hpositional
      simpa [hcs, zeros] using hpositional

theorem readInt?_plus (n : Nat) : readInt? ('+' :: Nat.toDigits 10 n) = some (n : Int) := by
  obtain ⟨d, ds, hd, hall⟩ := exists_toDigits_eq_cons n
  have hv := value_toDigits n
  rw [hd] at hv
  rw [hd, readInt?]
  simp [splitSign, List.all_eq_true.mpr hall, hv]

def power (l : FloatLayout) (p : Int) : String :=
  (if l.exponentPlus && decide (p ≥ 0) then "+" else "") ++ toString p

theorem readInt?_power (l : FloatLayout) (p : Int) : readInt? (l.power p).toList = some p := by
  rw [power]
  split
  · next h =>
    rw [Bool.and_eq_true, decide_eq_true_eq] at h
    obtain ⟨n, rfl⟩ := Int.eq_ofNat_of_zero_le h.2
    rw [String.toList_append, toList_toString_ofNat]
    exact readInt?_plus n
  · rw [String.toList_append]
    exact readInt?_toString p

theorem letter_notMem_power (l : FloatLayout) (p : Int) : 'e' ∉ (l.power p).toList := by
  obtain ⟨c, w, hcw, hc, hw⟩ := exists_toString_eq_cons p
  have hsign : 'e' ∉ (if l.exponentPlus && decide (p ≥ 0) then "+" else "").toList := by
    split <;> decide
  have hhead : 'e' ≠ c := by
    obtain hc | ⟨rfl, -⟩ := hc
    · exact (ne_of_isDigit hc (by decide)).symm
    · decide
  rw [power, String.toList_append, List.mem_append, not_or, hcw, List.mem_cons, not_or]
  exact ⟨hsign, hhead, notMem_of_isDigit hw (by decide)⟩

theorem toList_scientific {d : Decimal} {c : Char} {cs : List Char}
    (hcs : Nat.toDigits 10 d.digits = c :: cs) : (l.scientific d).toList =
      c :: (if cs.isEmpty then [] else '.' :: cs) ++
        'e' :: (l.power (d.exponent + (cs.length + 1) - 1)).toList := by
  have htext : (toString d.digits).toList = c :: cs := (toList_toString_nat _).trans hcs
  have hlength : ((toString d.digits).length : Int) = cs.length + 1 := by
    rw [← String.length_toList, htext, List.length_cons]
    rfl
  have hletter : ("e" : String).toList = ['e'] := by decide
  simp only [scientific, power, hlength, htext, String.toList_append, hletter, List.append_assoc]
  cases cs with
  | nil => simp
  | cons c' cs => simp

theorem denotes_scientific (l : FloatLayout) (d : Decimal) :
    Denotes (l.scientific d).toList d.value := by
  obtain ⟨c, cs, hcs, hdigits⟩ := exists_toDigits_eq_cons d.digits
  have hvalue : Digits.value 0 (c :: cs) = d.digits := hcs ▸ value_toDigits d.digits
  have hpoint : '.' ∉ c :: cs := notMem_of_isDigit hdigits (by decide)
  have hletter : 'e' ∉ c :: cs := notMem_of_isDigit hdigits (by decide)
  set a := if cs.isEmpty then [] else '.' :: cs with ha
  have hfilter : (c :: a).filter (· != '.') = c :: cs := by
    have hself : (c :: cs).filter (· != '.') = c :: cs :=
      List.filter_eq_self.mpr fun x hx => bne_iff_ne.mpr fun heq => hpoint (heq ▸ hx)
    cases cs with
    | nil => exact hself
    | cons c' cs =>
      rw [← hself, ha, List.filter_cons, List.filter_cons]
      rfl
  have hletter' : 'e' ∉ c :: a := by
    cases cs with
    | nil => exact hletter
    | cons c' cs => simpa [ha] using hletter
  have hexp : d.exponent + (cs.length + 1) - 1 + 1 - ((cs.length + 1 : Nat) : Int) = d.exponent := by
    omega
  refine .inr ⟨c, a, _, _, toList_scientific hcs, hdigits c (by simp), hletter',
    l.letter_notMem_power _, l.readInt?_power _, ?_⟩
  rw [hfilter, hvalue, List.length_cons, hexp]
  rfl

theorem denotes_zero : Denotes ("0.0" : String).toList 0 :=
  .inl ⟨['0'], ['0'], by decide, by decide, fun _ hc => isDigit_of_mem_zeros (n := 2) hc,
    by simp [Digits.value]⟩

/-- The text of a magnitude stands for a number that reads back as it. -/
theorem exists_denotes_magnitude (hl : l.pointZero = true) (x : Binary64) :
    ∃ q, Denotes (l.magnitude x).toList q ∧
      (x.magnitudeBits = 0 ∧ q = 0 ∨ 0 < q ∧ (Shortest.Interval.of x).Contains q) := by
  cases hx : x.isZero with
  | true =>
    refine ⟨0, ?_, .inl ⟨Binary64.magnitudeBits_eq_zero_iff.mpr hx, rfl⟩⟩
    rw [magnitude, hx, hl]
    exact denotes_zero
  | false =>
    have hcontains := Shortest.contains_digits l.tie (Binary64.mantissa_pos hx)
    refine ⟨_, ?_, .inr ⟨hcontains.pos hx, hcontains⟩⟩
    rw [magnitude, hx, if_neg Bool.false_ne_true]
    dsimp only
    split
    · exact denotes_positional hl _
    · exact l.denotes_scientific _

theorem magnitudeBits_eq_of_magnitude_eq (hl : l.pointZero = true) {x y : Binary64}
    (h : l.magnitude x = l.magnitude y) : x.magnitudeBits = y.magnitudeBits := by
  obtain ⟨q, hq, hx⟩ := exists_denotes_magnitude hl x
  obtain ⟨r, hr, hy⟩ := exists_denotes_magnitude hl y
  rw [← h] at hr
  obtain rfl := hq.unique hr
  obtain ⟨hx, hzero⟩ | ⟨hpos, hx⟩ := hx
  · obtain ⟨hy, -⟩ | ⟨hpos, -⟩ := hy
    · rw [hx, hy]
    · exact absurd hzero hpos.ne'
  · obtain ⟨-, hzero⟩ | ⟨-, hy⟩ := hy
    · exact absurd hzero hpos.ne'
    · exact hx.magnitudeBits_eq hy

theorem render_of_isFinite {x : Binary64} (hx : x.isFinite = true) :
    l.render x = (if x.isNegative then "-" else "") ++ l.magnitude x := by
  simp only [Binary64.isFinite, bne_iff_ne] at hx
  have hnan : x.isNaN = false := by simp [Binary64.isNaN, hx]
  have hinf : x.isInfinite = false := by simp [Binary64.isInfinite, hx]
  simp [render, hnan, hinf]

/-- The text of a finite double is a digit, behind a minus sign if there is one, and further
characters with a point or a letter among them. -/
theorem toList_render (hl : l.pointZero = true) {x : Binary64} (hx : x.isFinite = true) :
    ∃ c w, (l.render x).toList = (if x.isNegative then ['-'] else []) ++ c :: w ∧
      (l.magnitude x).toList = c :: w ∧ c.isDigit = true ∧ ∃ d ∈ w, d = '.' ∨ d = 'e' := by
  obtain ⟨q, hq, -⟩ := exists_denotes_magnitude hl x
  obtain ⟨c, w, hcw, hc, hd⟩ := hq.cons_isDigit
  refine ⟨c, w, ?_, hcw, hc, hd⟩
  rw [render_of_isFinite hx, String.toList_append, hcw]
  cases x.isNegative <;> rfl

/-- Finite doubles are written alike only if they are the same. -/
theorem render_injective (hl : l.pointZero = true) {x y : Binary64} (hx : x.isFinite = true)
    (hy : y.isFinite = true) (h : l.render x = l.render y) : x = y := by
  obtain ⟨c, w, hxr, hxm, hc, -⟩ := toList_render hl hx
  obtain ⟨c', w', hyr, hym, hc', -⟩ := toList_render hl hy
  rw [h, hyr] at hxr
  -- a minus sign is no digit, so the signs are the same and so is what follows
  have hminus : ∀ {d : Char}, d.isDigit = true → '-' ≠ d := fun hd => (ne_of_isDigit hd (by decide)).symm
  have hboth : x.isNegative = y.isNegative ∧ c' :: w' = c :: w := by
    cases hxs : x.isNegative <;> cases hys : y.isNegative <;> rw [hxs, hys] at hxr
    · exact ⟨rfl, hxr⟩
    · exact absurd (List.cons.inj hxr).1 (hminus hc)
    · exact absurd (List.cons.inj hxr).1.symm (hminus hc')
    · exact ⟨rfl, (List.cons.inj hxr).2⟩
  have hmagnitude : l.magnitude x = l.magnitude y :=
    String.toList_inj.mp (hxm.trans (hboth.2.symm.trans hym.symm))
  exact Binary64.eq_of_magnitudeBits_eq hboth.1 (magnitudeBits_eq_of_magnitude_eq hl hmagnitude)

end FloatLayout

theorem toString_ne_of_mark (n : Int) {s : String} (hs : ∃ d ∈ s.toList, d = '.' ∨ d = 'e') :
    toString n ≠ s := by
  rintro rfl
  obtain ⟨c, w, hcw, hc, hw⟩ := exists_toString_eq_cons n
  obtain ⟨d, hd, hmark⟩ := hs
  rw [hcw] at hd
  have hdigit : d.isDigit = true ∨ d = '-' := by
    obtain rfl | hd := List.mem_cons.mp hd
    · exact hc.imp id And.left
    · exact .inl (hw d hd)
  obtain rfl | rfl := hmark <;> revert hdigit <;> decide

theorem eq_of_toString_eq {n m : Int} (h : toString n = toString m) : n = m := by
  have hread := readInt?_toString n
  rw [h, readInt?_toString] at hread
  exact (Option.some.inj hread).symm

/-- The text of a number tells which number it is, and of which of the two sorts. -/
theorem Number.render_injective {n m : Number} (h : n.render = m.render) : n = m := by
  have hmark : ∀ {x : Binary64}, x.isFinite = true →
      ∃ d ∈ (FloatLayout.tree.render x).toList, d = '.' ∨ d = 'e' := by
    intro x hx
    obtain ⟨c, w, hcw, -, -, d, hd, hmark⟩ := FloatLayout.toList_render (l := .tree) rfl hx
    exact ⟨d, by simp [hcw, hd], hmark⟩
  cases n with
  | whole k =>
    cases m with
    | whole k' =>
      have hvalue : k.value = k'.value := eq_of_toString_eq h
      cases k
      cases k'
      cases hvalue
      rfl
    | float y hy => exact absurd h (toString_ne_of_mark k.value (hmark hy))
  | float x hx =>
    cases m with
    | whole k' => exact absurd h.symm (toString_ne_of_mark k'.value (hmark hx))
    | float y hy =>
      obtain rfl : x = y := FloatLayout.render_injective (l := .tree) rfl hx hy h
      rfl

end FieldPatch

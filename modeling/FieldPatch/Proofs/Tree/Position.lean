import FieldPatch.Tree.Position

/-! Positions and slices by what they select: an item counted from either end, and the items
that lie between two bounds. -/

namespace FieldPatch

variable {α : Type}

/-- The item at a position; `-1` is the last one. -/
def itemAt? (i : Int) (xs : List α) : Option α :=
  if i < 0 then xs.reverse[(-i - 1).toNat]? else xs[i.toNat]?

theorem resolveIndex_eq_ok_iff {i : Int} {length n : Nat} :
    resolveIndex i length = .ok n ↔ fromFront i length = n ∧ n < length := by
  simp only [resolveIndex]
  split
  · next h => simp; omega
  · next h => simp only [Except.ok.injEq]; omega

theorem itemAt?_eq (i : Int) (xs : List α) :
    itemAt? i xs = (resolveIndex i xs.length).toOption.bind (xs[·]?) := by
  cases h : resolveIndex i xs.length with
  | ok n =>
    obtain ⟨hn, hlt⟩ := resolveIndex_eq_ok_iff.mp h
    simp only [fromFront] at hn
    simp only [itemAt?, Except.toOption, Option.bind_some]
    split
    · next hi =>
      simp only [hi, if_true] at hn
      have hlen : (-i - 1).toNat < xs.length := by omega
      have he : xs.length - 1 - (-i - 1).toNat = n := by omega
      rw [List.getElem?_reverse hlen, he]
    · next hi =>
      simp only [hi, if_false] at hn
      have he : i.toNat = n := by omega
      rw [he]
  | error err =>
    have hout : ∀ n : Nat, ¬ (fromFront i xs.length = n ∧ n < xs.length) := by
      intro n hn
      rw [← resolveIndex_eq_ok_iff, h] at hn
      cases hn
    simp only [itemAt?, Except.toOption, Option.bind_none]
    split
    · next hi =>
      have hl := hout (xs.length + i).toNat
      simp only [fromFront, hi, if_true] at hl
      rw [List.getElem?_eq_none_iff, List.length_reverse]
      omega
    · next hi =>
      have hl := hout i.toNat
      simp only [fromFront, hi, if_false] at hl
      rw [List.getElem?_eq_none_iff]
      omega

/-- The items whose positions lie from `first` on and before `last`. A missing bound is the
end of the list on its side. -/
def between (first last : Option Int) (xs : List α) : List α :=
  let lower := first.elim 0 (fromFront · xs.length)
  let upper := last.elim (xs.length : Int) (fromFront · xs.length)
  (xs.zipIdx.filter fun r => lower ≤ r.2 && r.2 < upper).map Prod.fst

theorem filter_zipIdx_interval (lower upper : Int) (k : Nat) (xs : List α) :
    ((xs.zipIdx k).filter fun r => lower ≤ r.2 && r.2 < upper).map Prod.fst =
      (xs.take (upper - k).toNat).drop (lower - k).toNat := by
  induction xs generalizing k with
  | nil => simp
  | cons x xs ih =>
    have hh := ih (k + 1)
    rw [List.zipIdx_cons, List.filter_cons]
    by_cases hu : (k : Int) < upper
    · obtain ⟨n, hn⟩ : ∃ n, (upper - k).toNat = n + 1 := ⟨(upper - k).toNat - 1, by omega⟩
      have hn' : (upper - (k + 1 : Nat)).toNat = n := by omega
      by_cases hl : lower ≤ (k : Int)
      · have hz : (lower - k).toNat = 0 := by omega
        have hz' : (lower - (k + 1 : Nat)).toNat = 0 := by omega
        rw [hn', hz'] at hh
        simp only [hl, hu, decide_true, Bool.and_self, if_true, List.map_cons, hh, hn, hz,
          List.take_succ_cons, List.drop_zero]
      · obtain ⟨m, hm⟩ : ∃ m, (lower - k).toNat = m + 1 := ⟨(lower - k).toNat - 1, by omega⟩
        have hm' : (lower - (k + 1 : Nat)).toNat = m := by omega
        rw [hn', hm'] at hh
        simp [hl, hh, hn, hm]
    · have hz : (upper - k).toNat = 0 := by omega
      have hz' : (upper - (k + 1 : Nat)).toNat = 0 := by omega
      rw [hz'] at hh
      simp only [List.take_zero, List.drop_nil] at hh
      simp [hu, hh, hz]

theorem between_eq (first last : Option Int) (xs : List α) :
    between first last xs =
      (xs.take (resolveSlice first last xs.length).2).drop (resolveSlice first last xs.length).1 := by
  have hs : first.elim 0 (clampBound · xs.length) =
      min (first.elim 0 (fromFront · xs.length)).toNat xs.length := by
    cases first <;> simp [clampBound]
  have he : last.elim xs.length (clampBound · xs.length) =
      min (last.elim (xs.length : Int) (fromFront · xs.length)).toNat xs.length := by
    cases last <;> simp [clampBound]
  simp only [between, filter_zipIdx_interval, resolveSlice, hs, he, Int.natCast_zero, Int.sub_zero]
  apply List.ext_getElem?
  intro j
  simp only [List.getElem?_drop, List.getElem?_take]
  generalize (first.elim 0 (fromFront · xs.length)).toNat = a
  generalize (last.elim (xs.length : Int) (fromFront · xs.length)).toNat = b
  by_cases hj : a + j < xs.length
  · have ha : min a xs.length = a := by omega
    have hb : a + j < max a (min b xs.length) ↔ a + j < b := by omega
    simp only [ha, hb]
  · have hnone : xs[a + j]? = none := List.getElem?_eq_none (by omega)
    have hb : ¬ min a xs.length + j < max (min a xs.length) (min b xs.length) := by omega
    rw [if_neg hb, hnone, ite_self]

end FieldPatch

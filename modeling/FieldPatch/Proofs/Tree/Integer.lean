import FieldPatch.Proofs.Number.Layout
import FieldPatch.Proofs.Number.Signed
import FieldPatch.Tree.Write

/-! Integers written over numbers. The text of an integer is kept as that integer in the signed
range only, although numbers of a tree reach to twice that range. -/

namespace FieldPatch

theorem Number.render_eq_toString_iff {m : Number} {n : Whole} :
    m.render = toString n.value ↔ m = .whole n :=
  ⟨fun h => render_injective (m := .whole n) h, fun h => h ▸ rfl⟩

namespace Tree

theorem overwrite_toString (n : Whole) (m : Number) :
    (number m).overwrite (toString n.value) =
      .ok (if m = .whole n then (number m, false) else (number (Number.signed (.whole n)), true)) := by
  simp only [overwrite, scalarText, rescalar, Number.render_eq_toString_iff, Number.read?_toString]
  rfl

/-- The text of an integer of a tree, written over a number, leaves a number. It is that integer,
and has that text, if the integer lies in the signed range or was there before. Else it is the
double next to the integer, with another text. The flag says whether the number was another one. -/
theorem overwrite_integer (n : Whole) (m : Number) :
    ∃ k changed, (number m).overwrite (toString n.value) = .ok (number k, changed) ∧
      (changed = true ↔ m ≠ .whole n) ∧
      (k = .whole n ↔ n.value < 0x8000000000000000 ∨ m = .whole n) ∧
      ((number k).scalarText = some (toString n.value) ↔
        n.value < 0x8000000000000000 ∨ m = .whole n) ∧
      (k ≠ .whole n → ∃ finite, k = .float (.ofInt n.value) finite) := by
  rw [overwrite_toString]
  by_cases hm : m = .whole n
  · subst hm
    exact ⟨.whole n, false, by simp, by simp, by simp, by simp [scalarText, Number.render], by simp⟩
  · have hkept : Number.signed (.whole n) = .whole n ↔ n.value < 0x8000000000000000 := by
      simp [Number.signed_eq_self_iff]
    refine ⟨_, true, by rw [if_neg hm], by simp [hm], by simp [hm, hkept], ?_, fun hk => ?_⟩
    · rw [scalarText, Option.some.injEq, Number.render_eq_toString_iff, hkept]
      simp [hm]
    · rw [Ne, hkept] at hk
      exact ⟨Binary64.isFinite_ofInt (Int.not_lt.mp hk) n.inRange.2, dif_neg hk⟩

theorem inRange_beyondSigned :
    (-0x8000000000000000 : Int) ≤ 0x8000000000000000 ∧ (0x8000000000000000 : Int) < 0x10000000000000000 := by
  decide

def beyondSigned : Whole := ⟨0x8000000000000000, inRange_beyondSigned⟩

/-- Writing 9223372036854775808 over the number 1 leaves another number. -/
theorem large_integer_rounded : ¬ ∀ (n : Whole) (m : Number), ∃ changed,
    (number m).overwrite (toString n.value) = .ok (number (.whole n), changed) ∧
      (number (.whole n)).scalarText = some (toString n.value) := by
  intro h
  obtain ⟨changed, hw, -⟩ := h beyondSigned (.whole ⟨1, by decide⟩)
  rw [overwrite_toString, if_neg (by decide), Except.ok.injEq, Prod.mk.injEq, number.injEq,
    Number.signed_eq_self_iff] at hw
  exact absurd (hw.1 beyondSigned rfl) (by decide)

end Tree

end FieldPatch

import FieldPatch.Text.Template
import Mathlib.Data.List.SplitBy

/-! The dollar signs of a text, taken run by run: of a run as long as it can be, half are left,
rounded up. -/

namespace FieldPatch.Template

/-- Half of a run of dollar signs, rounded up. -/
def halvedRun (run : List Char) : List Char :=
  if run.head? = some '$' then List.replicate ((run.length + 1) / 2) '$' else run

/-- The text with half of each run of dollar signs that no dollar sign stands next to. -/
def halved (cs : List Char) : List Char :=
  (cs.splitBy fun a b => a == '$' && b == '$').flatMap halvedRun

variable {c : Char} {cs rest : List Char}

theorem halved_append {run : List Char}
    (h : ∀ a ∈ run.getLast?, ∀ b ∈ rest.head?, ¬ (a = '$' ∧ b = '$')) :
    halved (run ++ rest) = halved run ++ halved rest := by
  have hsplit : ∀ a ∈ run.getLast?, ∀ b ∈ rest.head?, (a == '$' && b == '$') = false := by
    intro a ha b hb
    simpa using h a ha b hb
  rw [halved, List.splitBy_append hsplit, List.flatMap_append]
  rfl

theorem halved_of_isChain {run : List Char} (hn : run ≠ [])
    (h : run.IsChain fun a b => (a == '$' && b == '$') = true) : halved run = halvedRun run := by
  rw [halved, List.splitBy_of_isChain hn h]
  exact List.append_nil _

theorem halved_cons (h : c ≠ '$') (cs : List Char) : halved (c :: cs) = c :: halved cs := by
  have hone : halved [c] = [c] := by
    rw [halved_of_isChain (by simp) (by simp)]
    simp [halvedRun, h]
  have happ : halved ([c] ++ cs) = halved [c] ++ halved cs := halved_append (by simp [h])
  rw [← List.singleton_append, happ, hone, List.singleton_append]

theorem halved_dollars (k : Nat) (h : rest.head? ≠ some '$') :
    halved (List.replicate k '$' ++ rest) = List.replicate ((k + 1) / 2) '$' ++ halved rest := by
  have hrun : halved (List.replicate k '$') = List.replicate ((k + 1) / 2) '$' := by
    cases k with
    | zero => rfl
    | succ k =>
      rw [halved_of_isChain (by simp) (by simp [List.isChain_replicate_of_rel])]
      simp [halvedRun, List.replicate_succ]
  have happ : halved (List.replicate k '$' ++ rest) = halved (List.replicate k '$') ++ halved rest := by
    refine halved_append ?_
    rintro a - b hb ⟨-, rfl⟩
    exact h hb
  rw [happ, hrun]

theorem exists_dollars (cs : List Char) :
    ∃ k rest, cs = List.replicate k '$' ++ rest ∧ rest.head? ≠ some '$' := by
  induction cs with
  | nil => exact ⟨0, [], rfl, by simp⟩
  | cons c cs ih =>
    by_cases hc : c = '$'
    · obtain ⟨k, rest, he, hr⟩ := ih
      exact ⟨k + 1, rest, by rw [hc, he, List.replicate_succ, List.cons_append], hr⟩
    · exact ⟨0, c :: cs, rfl, by simpa using hc⟩

theorem collapse_eq_halved (cs : List Char) : collapse cs = halved cs := by
  fun_induction collapse cs with
  | case1 cs ih =>
    obtain ⟨k, rest, rfl, hr⟩ := exists_dollars cs
    have hk : (k + 2 + 1) / 2 = (k + 1) / 2 + 1 := by omega
    have hh := halved_dollars (k + 2) hr
    rw [hk] at hh
    rw [ih, halved_dollars k hr]
    exact hh.symm
  | case2 c cs hnot ih =>
    by_cases hc : c = '$'
    · -- a dollar sign by itself
      have hr : cs.head? ≠ some '$' := by
        intro hh
        obtain ⟨tail, rfl⟩ := List.head?_eq_some_iff.mp hh
        exact hnot tail hc rfl
      have hh := halved_dollars 1 hr
      rw [ih, hc]
      exact hh.symm
    · rw [ih, halved_cons hc]
  | case3 => rfl

end FieldPatch.Template

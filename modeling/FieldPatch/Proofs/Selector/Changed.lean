import FieldPatch.Proofs.Selector.Set
import FieldPatch.Proofs.Tree.Overwrite

/-! The flag of a write tells whether the tree is another one, with one exception: a number
that is spelled in another way. -/

namespace FieldPatch.Selector

variable {text : String} {e : Expression} {t t' : Tree} {changed : Bool}

/-- The selected node is a number, and `text` another spelling of that number. -/
def Respells (text : String) (e : Expression) (t : Tree) : Prop :=
  ∃ l u, locate t e = .ok l ∧ t.get? l = some u ∧ u.Respelled text

theorem respells_iff {l : Location} {u : Tree} (h : locate t e = .ok l) (hu : t.get? l = some u) :
    Respells text e t ↔ u.Respelled text := by
  constructor
  · rintro ⟨l', u', hl', hu', hr⟩
    obtain rfl := Except.ok.inj (h.symm.trans hl')
    obtain rfl := Option.some.inj (hu.symm.trans hu')
    exact hr
  · exact fun hr => ⟨l, u, h, hu, hr⟩

theorem set_flag (h : set text e t = .ok (t', changed)) :
    (¬ Respells text e t → (changed = true ↔ t' ≠ t)) ∧
      (Respells text e t → changed = true ∧ t' = t) := by
  rcases set_cases h with ⟨l, u, u', hl, hu, ho, rfl⟩ | ⟨ds, l, es, name, he, ha, rfl, rfl⟩
  · rw [respells_iff hl hu, Ne, Tree.replaceAt_eq_self_iff hu]
    exact Tree.overwrite_flag ho
  · -- a map with one more field is another map
    have hlen : Tree.map (es ++ [(name, .text text)]) ≠ .map es := by simp
    rw [Ne, Tree.replaceAt_eq_self_iff ha.parent]
    refine ⟨by simp [hlen], ?_⟩
    rintro ⟨l', u, hl', -⟩
    rw [he, locate_addsField ha] at hl'
    cases hl'

theorem locate_after_set (hp : e.isPlain = true) (h : set text e t = .ok (t', changed)) :
    ∃ l u, locate t' e = .ok l ∧ t'.get? l = some u ∧ u.Settled text := by
  rcases set_cases h with ⟨l, u, u', hl, hu, ho, rfl⟩ | ⟨ds, l, es, name, he, ha, rfl, -⟩
  · exact ⟨l, u', locate_replaceAt hp hl u', Tree.get?_replaceAt_self hu u', Tree.settled_of_overwrite ho⟩
  · have hadded := locate_added ha (.text text)
    rw [← he] at hadded
    exact ⟨_, _, hadded.1, hadded.2, .inl rfl⟩

theorem set_again (hp : e.isPlain = true) (h : set text e t = .ok (t', changed)) :
    ∃ again, set text e t' = .ok (t', again) ∧ (again = false ↔ ¬ Respells text e t') := by
  obtain ⟨l, u, hl, hu, hs⟩ := locate_after_set hp h
  obtain ⟨again, ho, ha⟩ := Tree.overwrite_of_settled hs
  refine ⟨again, ?_, by rw [respells_iff hl hu, ha]⟩
  rw [set_of_locate hl hu, ho]
  show Except.ok (t'.replaceAt l u, again) = _
  rw [Tree.replaceAt_self hu]

/-- A write that succeeds reports a change exactly if it leaves another tree, and a second
write through fields and indices reports none, unless the text spells the number that is there
in another way. Then a change is reported although the tree is the same. -/
theorem set_flag_exact_unless_respelled (h : set text e t = .ok (t', changed)) :
    (¬ Respells text e t → (changed = true ↔ t' ≠ t)) ∧
    (Respells text e t → changed = true ∧ t' = t) ∧
    (e.isPlain = true →
      ∃ again, set text e t' = .ok (t', again) ∧ (again = false ↔ ¬ Respells text e t')) :=
  ⟨(set_flag h).1, (set_flag h).2, fun hp => set_again hp h⟩

def five : Tree := .number (.whole ⟨5, by decide⟩)

def six : Tree := .number (.whole ⟨6, by decide⟩)

def port : Expression := .ofSteps ".port" [.field "port"]

def pod (port : Tree) : Tree := .map [("port", port)]

theorem set_flag_of_port :
    (set "05" port (pod five) = .ok (pod five, true) ∧ Respells "05" port (pod five)) ∧
    (set "6" port (pod five) = .ok (pod six, true) ∧ pod six ≠ pod five ∧
      ¬ Respells "6" port (pod five)) ∧
    (set "5" port (pod five) = .ok (pod five, false) ∧ ¬ Respells "5" port (pod five)) ∧
    set "6" port (pod six) = .ok (pod six, false) ∧ ¬ Respells "6" port (pod six) := by
  have hspelling : set "05" port (pod five) = .ok (pod five, true) := rfl
  have hother : set "6" port (pod five) = .ok (pod six, true) := rfl
  have hsame : set "5" port (pod five) = .ok (pod five, false) := rfl
  have hagain : set "6" port (pod six) = .ok (pod six, false) := rfl
  have hne : pod six ≠ pod five := fun h => by cases h
  obtain ⟨hspelling₁, -, -⟩ := set_flag_exact_unless_respelled hspelling
  obtain ⟨-, hother₂, hother₃⟩ := set_flag_exact_unless_respelled hother
  obtain ⟨-, hsame₂, -⟩ := set_flag_exact_unless_respelled hsame
  have hrespells : Respells "05" port (pod five) := by
    by_contra hno
    exact (hspelling₁ hno).mp rfl rfl
  obtain ⟨again, hset, hexact⟩ := hother₃ rfl
  obtain ⟨-, rfl⟩ := Prod.mk.inj (Except.ok.inj (hagain.symm.trans hset))
  exact ⟨⟨hspelling, hrespells⟩, ⟨hother, hne, fun hr => hne (hother₂ hr).2⟩,
    ⟨hsame, fun hr => Bool.noConfusion (hsame₂ hr).1⟩, hagain, hexact.mp rfl⟩

/-- Writing `05` over the number 5 reports a change, each time, and changes nothing. -/
theorem write_flag_inexact :
    ¬ ∀ (t t' : Tree) (selector text : String) (changed : Bool),
      write t selector text = .ok (t', changed) → (changed = true ↔ t' ≠ t) := by
  intro h
  have ht : tokens "." = .ok [⟨0, .dot⟩, ⟨1, .finish⟩] := by
    show tokensFrom 0 ['.'] = _
    rw [tokensFrom, if_neg (by decide)]
    show (tokensFrom 1 [] >>= fun rest => .ok (⟨0, .dot⟩ :: rest)) = _
    rw [tokensFrom]
    rfl
  have hw : write five "." "05" = .ok (five, true) := by
    rw [write, parse, ht]
    rfl
  exact (h five five "." "05" true hw).mp rfl rfl

end FieldPatch.Selector

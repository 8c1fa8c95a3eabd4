import FieldPatch.Proofs.Selector.InPlace
import FieldPatch.Proofs.Selector.Set
import FieldPatch.Proofs.Tree.Growth

/-! Sessions on one tree: reads and writes in any order, of which some may fail. The tree only
ever grows. -/

namespace FieldPatch.Selector

inductive Action where
  | query (selector : String)
  | locate (selector : String)
  | write (selector text : String)

namespace Action

def reads : Action → Bool
  | .query _ | .locate _ => true
  | .write .. => false

/-- Carries out an action in place: whether it fails, and the tree that it leaves in any case. -/
def perform (t : Tree) : Action → Except Error Unit × Tree
  | .query selector => ((Selector.query t selector).map fun _ => (), t)
  | .locate selector => ((parse selector >>= Selector.locate t).map fun _ => (), t)
  | .write selector text =>
    match parse selector with
    | .error err => (.error err, t)
    | .ok e => ((InPlace.set text e t).1.map fun _ => (), (InPlace.set text e t).2)

/-- The tree that an action leaves. -/
def after (t : Tree) (a : Action) : Tree := (a.perform t).2

end Action

variable {t t' : Tree} {e : Expression} {text : String} {changed : Bool}

theorem set_grows (h : set text e t = .ok (t', changed)) : t.Grows t' := by
  rcases set_cases h with ⟨l, u, u', -, hu, ho, rfl⟩ | ⟨ds, l, es, name, -, ha, rfl, -⟩
  · exact .replaceAt hu (.overwrite ho)
  · exact .replaceAt ha.parent (.addEntry es name text)

theorem set_keyCount (h : set text e t = .ok (t', changed)) :
    t'.keyCount = t.keyCount ∨ t'.keyCount = t.keyCount + 1 := by
  rcases set_cases h with ⟨l, u, u', -, hu, ho, rfl⟩ | ⟨ds, l, es, name, -, ha, rfl, -⟩
  · have hr := Tree.keyCount_replaceAt hu u'
    have ho := Tree.keyCount_overwrite ho
    omega
  · have hr := Tree.keyCount_replaceAt ha.parent (.map (es ++ [(name, .text text)]))
    simp only [Tree.keyCount, Tree.keyCountOfEntries_append, Tree.keyCountOfEntries] at hr
    omega

namespace Action

theorem perform_write (t : Tree) (selector text : String) :
    (Action.write selector text).perform t =
      match Selector.write t selector text with
      | .ok (t', _) => (.ok (), t')
      | .error err => (.error err, t) := by
  simp only [perform, Selector.write]
  cases parse selector with
  | error err => rfl
  | ok e =>
    simp only [InPlace.set_eq, ok_bind]
    cases set text e t <;> rfl

theorem after_of_reads {a : Action} (h : a.reads = true) (t : Tree) : a.after t = t := by
  cases a with
  | query selector => rfl
  | locate selector => rfl
  | write selector text => cases h

theorem after_of_error {a : Action} {t : Tree} {err : Error} (h : (a.perform t).1 = .error err) :
    a.after t = t := by
  cases a with
  | query selector => rfl
  | locate selector => rfl
  | write selector text =>
    rw [perform_write] at h
    rw [after, perform_write]
    cases hw : Selector.write t selector text with
    | error err => rfl
    | ok r =>
      rw [hw] at h
      cases h

/-- All that an action may do to a tree: leave it, or write to it. -/
theorem after_cases (t : Tree) (a : Action) :
    a.after t = t ∨ ∃ e text changed, set text e t = .ok (a.after t, changed) := by
  cases a with
  | query selector => exact .inl rfl
  | locate selector => exact .inl rfl
  | write selector text =>
    rw [after, perform_write]
    cases hw : Selector.write t selector text with
    | error err => exact .inl rfl
    | ok r =>
      obtain ⟨e, -, hs⟩ := ok_of_bind hw
      exact .inr ⟨e, text, r.2, hs⟩

theorem grows_after (t : Tree) (a : Action) : t.Grows (a.after t) := by
  rcases a.after_cases t with h | ⟨e, text, changed, hs⟩
  · rw [h]
    exact .refl t
  · exact set_grows hs

theorem keyCount_after (t : Tree) (a : Action) :
    (a.after t).keyCount = t.keyCount ∨ (a.after t).keyCount = t.keyCount + 1 := by
  rcases a.after_cases t with h | ⟨e, text, changed, hs⟩
  · rw [h]
    exact .inl rfl
  · exact set_keyCount hs

theorem grows_foldl_after (actions : List Action) (t : Tree) :
    t.Grows (actions.foldl after t) := by
  induction actions generalizing t with
  | nil => exact .refl t
  | cons a actions ih => exact (grows_after t a).trans (ih (a.after t))

end Action

/-- Writes never lose or rearrange data. Whatever is read and written in whatever order, the tree
only grows: maps keep their keys in order, arrays their length, scalars stay scalars, each node
stays where it was, and what is new are strings at the ends of maps. An action that fails or only
reads leaves the tree as it was, and a write adds one key at most. -/
theorem session_only_grows :
    (∀ (t : Tree) (a : Action),
      (a.reads = true ∨ (∃ err, (a.perform t).1 = .error err) → a.after t = t) ∧
      t.Grows (a.after t) ∧
      ((a.after t).keyCount = t.keyCount ∨ (a.after t).keyCount = t.keyCount + 1)) ∧
    (∀ (t : Tree) (selector text : String),
      (Action.write selector text).perform t =
        match Selector.write t selector text with
        | .ok (t', _) => (.ok (), t')
        | .error err => (.error err, t)) ∧
    ∀ (actions : List Action) (t : Tree),
      t.Grows (actions.foldl Action.after t) ∧
      ∀ l u, t.get? l = some u → ∃ u', (actions.foldl Action.after t).get? l = some u' ∧ u.Grows u' := by
  refine ⟨fun t a => ⟨?_, a.grows_after t, a.keyCount_after t⟩, Action.perform_write,
    fun actions t => ?_⟩
  · rintro (h | ⟨err, h⟩)
    · exact Action.after_of_reads h t
    · exact Action.after_of_error h
  · have hg := Action.grows_foldl_after actions t
    exact ⟨hg, fun l u hu => hg.get? hu⟩

end FieldPatch.Selector

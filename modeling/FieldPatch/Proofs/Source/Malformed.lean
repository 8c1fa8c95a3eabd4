import FieldPatch.Proofs.Selector.Language
import FieldPatch.Proofs.Source.Filter
import Mathlib

/-! Filters with keys that are no selectors. Entries are tested in order and the first that is not
met ends the test, so such a key is reported only where all entries before it are met. -/

namespace FieldPatch.DocumentFilter

/-- The key of the entry is a selector. -/
def WellFormed (entry : String × String) : Prop :=
  ∃ e, Selector.parse (selectorText entry.1) = .ok e

/-- The selector of the entry leads to a scalar of the text that the entry expects. -/
def Met (t : Tree) (entry : String × String) : Prop :=
  ∃ e u, Selector.parse (selectorText entry.1) = .ok e ∧ Selector.evaluate t e = .ok u ∧
    u.scalarText = some entry.2

variable {t : Tree} {entry : String × String}

theorem met_iff {e : Selector.Expression} (h : Selector.parse (selectorText entry.1) = .ok e) :
    Met t entry ↔ ∃ u, Selector.evaluate t e = .ok u ∧ u.scalarText = some entry.2 := by
  constructor
  · rintro ⟨e', u, he', hu⟩
    obtain rfl := Except.ok.inj (h.symm.trans he')
    exact ⟨u, hu⟩
  · rintro ⟨u, hu⟩
    exact ⟨e, u, h, hu⟩

theorem accepts_cons_of_met (h : Met t entry) (more : DocumentFilter) :
    accepts t (entry :: more) = accepts t more := by
  obtain ⟨e, u, he, hu⟩ := h
  have hh := (holds_eq_ok_true_iff t e entry.2).mpr ⟨u, hu⟩
  simp only [accepts, he, ok_bind, hh]
  rfl

theorem accepts_cons_of_not_met (hw : WellFormed entry) (h : ¬ Met t entry)
    (more : DocumentFilter) : accepts t (entry :: more) = .ok false := by
  obtain ⟨e, he⟩ := hw
  obtain ⟨b, hb⟩ := exists_holds_eq_ok t e entry.2
  cases b with
  | true => exact absurd ((met_iff he).mpr ((holds_eq_ok_true_iff t e entry.2).mp hb)) h
  | false =>
    simp only [accepts, he, ok_bind, hb]
    rfl

theorem accepts_cons_of_parse_error {key : String} {err : Error}
    (h : Selector.parse (selectorText key) = .error err) (t : Tree) (expected : String)
    (more : DocumentFilter) : accepts t ((key, expected) :: more) = .error err := by
  simp only [accepts, h]
  rfl

/-- What entries with selectors for keys do to the test: they are passed over if all of them are
met, and end it with a refusal if not. -/
theorem accepts_append {before : DocumentFilter} (h : ∀ entry ∈ before, WellFormed entry)
    (after : DocumentFilter) :
    (∀ entry ∈ before, Met t entry) ∧ accepts t (before ++ after) = accepts t after ∨
      (∃ entry ∈ before, ¬ Met t entry) ∧ accepts t (before ++ after) = .ok false := by
  induction before with
  | nil => exact .inl ⟨nofun, rfl⟩
  | cons entry before ih =>
    by_cases hm : Met t entry
    · rw [List.cons_append, accepts_cons_of_met hm]
      rcases ih fun x hx => h x (by simp [hx]) with ⟨hall, ha⟩ | ⟨⟨x, hx, hn⟩, ha⟩
      · exact .inl ⟨List.forall_mem_cons.mpr ⟨hm, hall⟩, ha⟩
      · exact .inr ⟨⟨x, by simp [hx], hn⟩, ha⟩
    · exact .inr ⟨⟨entry, by simp, hm⟩, accepts_cons_of_not_met (h entry (by simp)) hm _⟩

/-- A filter whose keys are selectors never fails, and accepts a document if and only if all its
entries are met. The first key that is no selector is reported, with its text and a position in
it, if all entries before it are met. If not, it goes unreported and the document is refused. -/
theorem malformed_key_reported_if_met_before (t : Tree) (filter : DocumentFilter) :
    ((∀ entry ∈ filter, WellFormed entry) →
      ∃ accepted, accepts t filter = .ok accepted ∧
        (accepted = true ↔ ∀ entry ∈ filter, Met t entry)) ∧
    ∀ before key expected after, filter = before ++ (key, expected) :: after →
      (∀ entry ∈ before, WellFormed entry) → ¬ WellFormed (key, expected) →
      ((∀ entry ∈ before, Met t entry) → ∃ position fault,
        position ≤ (selectorText key).length ∧
          accepts t filter = .error (.badSelector (selectorText key) position fault)) ∧
      ((∃ entry ∈ before, ¬ Met t entry) → accepts t filter = .ok false) := by
  refine ⟨fun hw => ?_, ?_⟩
  · rcases accepts_append (t := t) hw [] with ⟨hall, ha⟩ | ⟨⟨x, hx, hn⟩, ha⟩
    · rw [List.append_nil] at ha
      exact ⟨true, ha, by simpa using hall⟩
    · rw [List.append_nil] at ha
      exact ⟨false, ha, by simpa using ⟨x.1, x.2, hx, hn⟩⟩
  · rintro before key expected after rfl hw hbad
    have hparse : ∃ err, Selector.parse (selectorText key) = .error err := by
      cases hp : Selector.parse (selectorText key) with
      | error err => exact ⟨err, rfl⟩
      | ok e => exact absurd ⟨e, hp⟩ hbad
    obtain ⟨err, herr⟩ := hparse
    obtain ⟨position, fault, hpos, rfl⟩ := Selector.parse_error_sited herr
    have hstop := accepts_cons_of_parse_error herr t expected after
    rcases accepts_append (t := t) hw ((key, expected) :: after) with ⟨hall, ha⟩ | ⟨hsome, ha⟩
    · refine ⟨fun _ => ⟨position, fault, hpos, ha.trans hstop⟩, ?_⟩
      rintro ⟨x, hx, hn⟩
      exact absurd (hall x hx) hn
    · obtain ⟨x, hx, hn⟩ := hsome
      exact ⟨fun hall => absurd (hall x hx) hn, fun _ => ha⟩

/-- A document of another kind hides that the second key lacks its closing bracket. -/
theorem malformed_key_unreported :
    ¬ ∀ (t : Tree) (filter : DocumentFilter), (∃ entry ∈ filter, ¬ WellFormed entry) →
      ∃ source position fault, accepts t filter = .error (.badSelector source position fault) := by
  intro h
  have hbad : ¬ WellFormed ("metadata[", "x") := by
    rintro ⟨e, he⟩
    have hp : Selector.parse (selectorText "metadata[") =
        .error (.badSelector ".metadata[" 10 (.malformedBracket .finish)) := by cbv
    cases hp.symm.trans he
  have hfalse : accepts (.map [("kind", .text "Service")])
      [("kind", "Deployment"), ("metadata[", "x")] = .ok false := by cbv
  have hmem : ("metadata[", "x") ∈ [("kind", "Deployment"), ("metadata[", "x")] := by simp
  obtain ⟨source, position, fault, herr⟩ :=
    h (.map [("kind", .text "Service")]) _ ⟨_, hmem, hbad⟩
  cases hfalse.symm.trans herr

end FieldPatch.DocumentFilter

import FieldPatch.Proofs.Selector.Set
import FieldPatch.Proofs.Source.Filter
import FieldPatch.Proofs.Source.Inclusion
import FieldPatch.Proofs.Source.Scoping

/-! Writing back what was read. The place that a selector writes to is the place it reads from, so a
change whose value is the text that is there leaves the document as it is and reports nothing. -/

namespace FieldPatch

theorem Tree.overwrite_own_text {t : Tree} {text : String} (h : t.scalarText = some text) :
    t.overwrite text = .ok (t, false) := by
  simp [overwrite, h]

namespace Selector

/-- Without slices the node that is read has a place, and it is the one that is written. -/
theorem set_own_text {t u : Tree} {e : Expression} {text : String} (hs : e.slices = false)
    (hu : evaluate t e = .ok u) (htext : u.scalarText = some text) :
    set text e t = .ok (t, false) := by
  obtain ⟨l, hl, hg⟩ := locate_of_evaluate hu hs
  rw [set_of_locate hl hg, Tree.overwrite_own_text htext]
  show Except.ok (t.replaceAt l u, false) = _
  rw [Tree.replaceAt_self hg]

end Selector

variable {t u : Tree} {selector text : String} {fileSelector : Option String}

theorem change_of_document (w : World) (ctx : Context) {e : Selector.Expression}
    (he : Selector.parse selector = .ok e)
    (htext : documentText { ctx with document := some t } selector fileSelector = .ok text) :
    (Source.document selector fileSelector).change w ctx none selector t =
      Selector.set text e t :=
  Source.change_of_value he fun _ => congrArg Evaluation.of htext

/-- A change that takes its value from the place it writes to succeeds, reports no change and leaves
the document as it is, whatever the selector goes through but slices. -/
theorem change_by_own_text (w : World) (ctx : Context) {e : Selector.Expression}
    (he : Selector.parse selector = .ok e) (hs : e.slices = false)
    (hf : fileSelector.getD "" = "") (hu : Selector.query t selector = .ok u)
    (htext : u.scalarText = some text) :
    (Source.document selector fileSelector).change w ctx none selector t = .ok (t, false) := by
  have hread : Selector.evaluate t e = .ok u := by
    rwa [Selector.query, he] at hu
  have hvalue : documentText { ctx with document := some t } selector fileSelector = .ok text :=
    (documentText_eq_ok_iff_query rfl hf).mpr ⟨u, hu, htext⟩
  rw [change_of_document w ctx he hvalue, Selector.set_own_text hs hread htext]

def lastPort : Selector.Expression :=
  ⟨"[\"a.b\"][] | select(.name != 'web') | .ports[-1]",
    [.path [.key "a.b", .each], .select ⟨[.field "name"], .notEqual, .text "web"⟩,
      .path [.field "ports", .index (-1)]]⟩

def services : Tree :=
  .map [("a.b", .array [
    .map [("name", .text "web"), ("ports", .array [.text "80"])],
    .map [("name", .text "db"), ("ports", .array [.text "5432", .bool true])]])]

theorem change_by_own_text_services :
    Selector.parse lastPort.source = .ok lastPort ∧ lastPort.slices = false ∧
      Selector.query services lastPort.source = .ok (.bool true) ∧
      (Source.document lastPort.source none).change Source.bareWorld (.root "/srv") none
        lastPort.source services = .ok (services, false) := by
  have he : Selector.parse lastPort.source = .ok lastPort := by decide +kernel
  have hs : lastPort.slices = false := by decide
  have hread : Selector.evaluate services lastPort = .ok (.bool true) := rfl
  have hu : Selector.query services lastPort.source = .ok (.bool true) := by
    rw [Selector.query, he]
    exact hread
  exact ⟨he, hs, hu, change_by_own_text Source.bareWorld _ he hs rfl hu rfl⟩

end FieldPatch

import FieldPatch.Proofs.Selector.FirstMatch
import FieldPatch.Proofs.Selector.Unresolved
import FieldPatch.Proofs.Source.Inclusion
import FieldPatch.Proofs.Source.Scoping
import Mathlib.Data.List.Forall2

/-! Three ways to test a document by the text at a path: as an entry of a filter, as a condition
of a selector, and as the value of a source. They agree. -/

namespace FieldPatch

namespace Selector

/-- The path leads to a scalar of this text. -/
def LeadsTo (t : Tree) (p : Path) (text : String) : Prop :=
  ∃ u, (allMatches [.path p] t).head? = some u ∧ u.scalarText = some text

theorem leadsTo_iff {t : Tree} {p : Path} {text : String} (source : String) :
    LeadsTo t p text ↔ ∃ u, evaluate t ⟨source, [.path p]⟩ = .ok u ∧ u.scalarText = some text := by
  simp only [LeadsTo, evaluate_eq_ok_iff_head?]

theorem keeps_equal_iff {t : Tree} {p : Path} {text : String} :
    Comparison.keeps ⟨p, .equal, .text text⟩ t = true ↔ LeadsTo t p text := by
  simp only [Comparison.keeps, Literal.render, decide_eq_true_eq, Option.bind_eq_some_iff]
  rfl

/-- A pipeline of conditions alone keeps a node that meets all of them, in whatever order. -/
theorem head?_allMatches_selects {t u : Tree} {steps : List Step}
    (h : ∀ s ∈ steps, ∃ c, s = .select c) :
    (allMatches steps t).head? = some u ↔ u = t ∧ ∀ c, .select c ∈ steps → c.keeps t = true := by
  induction steps with
  | nil =>
    simp only [allMatches, List.head?_cons, Option.some.injEq]
    exact ⟨fun he => ⟨he.symm, nofun⟩, fun he => he.1.symm⟩
  | cons s rest ih =>
    obtain ⟨c, rfl⟩ := h s (by simp)
    have hh := ih fun s hs => h s (by simp [hs])
    by_cases hc : c.keeps t = true
    · simp [allMatches, hc, hh]
    · simp only [allMatches, hc]
      simp [hc]

end Selector

open Selector (LeadsTo)

namespace DocumentFilter

/-- The condition that an entry of a filter stands for, if its key is a single path. -/
def StandsFor (entry : String × String) (c : Selector.Comparison) : Prop :=
  ∃ p, Selector.parse (selectorText entry.1) = .ok ⟨selectorText entry.1, [.path p]⟩ ∧
    c = ⟨p, .equal, .text entry.2⟩

theorem exists_holds_eq_ok (t : Tree) (e : Selector.Expression) (text : String) :
    ∃ b, holds t e text = .ok b := by
  unfold holds
  cases he : Selector.evaluate t e with
  | ok node => exact ⟨_, rfl⟩
  | error err =>
    -- evaluation fails only by leading nowhere
    have hu := Selector.evaluate_unresolving t e err he
    exact ⟨false, if_pos hu⟩

theorem holds_eq_ok_true_iff (t : Tree) (e : Selector.Expression) (text : String) :
    holds t e text = .ok true ↔ ∃ u, Selector.evaluate t e = .ok u ∧ u.scalarText = some text := by
  unfold holds
  cases he : Selector.evaluate t e with
  | ok node => simp
  | error err => simp [Selector.evaluate_unresolving t e err he]

theorem holds_eq (t : Tree) (source : String) (p : Selector.Path) (text : String) :
    holds t ⟨source, [.path p]⟩ text = .ok (Selector.Comparison.keeps ⟨p, .equal, .text text⟩ t) := by
  have hk := Selector.keeps_equal_iff.trans (@Selector.leadsTo_iff t p text source)
  obtain ⟨b, hb⟩ := exists_holds_eq_ok t ⟨source, [.path p]⟩ text
  rw [← holds_eq_ok_true_iff, hb, Except.ok.injEq] at hk
  rw [hb, Bool.eq_iff_iff.mpr hk.symm]

theorem accepts_eq {filter : DocumentFilter} {conditions : List Selector.Comparison}
    (h : List.Forall₂ StandsFor filter conditions) (t : Tree) :
    filter.accepts t = .ok (conditions.all fun c => c.keeps t) := by
  induction h with
  | nil => rfl
  | @cons entry c more cs hc _ ih =>
    obtain ⟨key, text⟩ := entry
    obtain ⟨p, hp, rfl⟩ := hc
    simp only [accepts, hp, ok_bind, holds_eq, List.all_cons]
    split
    · next hk => simp [ih, hk]
    · next hk => simp [hk]; rfl

end DocumentFilter

section

variable {ctx : Context} {t : Tree} {selector text : String} {fileSelector : Option String}

theorem documentText_eq_ok_iff_query (hd : ctx.document = some t)
    (hf : fileSelector.getD "" = "") :
    documentText ctx selector fileSelector = .ok text ↔
      ∃ node, Selector.query t selector = .ok node ∧ node.scalarText = some text := by
  have hany : fileSelector.any (· ≠ "") = false := by
    cases fileSelector with
    | none => rfl
    | some given =>
      obtain rfl : given = "" := hf
      rfl
  simp only [documentText, hany, hd]
  cases Selector.query t selector with
  | error err =>
    show (.error err : Except Error String) = .ok text ↔ _
    simp
  | ok node =>
    simp only [ok_bind]
    cases hs : node.scalarText with
    | none =>
      show (.error (.typeMismatch "scalar" node.kind) : Except Error String) = .ok text ↔ _
      simp [hs]
    | some found =>
      show (.ok found : Except Error String) = .ok text ↔ _
      simp [hs]

theorem documentText_eq_ok_iff {p : Selector.Path} (hd : ctx.document = some t)
    (hp : Selector.parse selector = .ok ⟨selector, [.path p]⟩)
    (hf : fileSelector.getD "" = "") :
    documentText ctx selector fileSelector = .ok text ↔ LeadsTo t p text := by
  have hquery : Selector.query t selector = Selector.evaluate t ⟨selector, [.path p]⟩ := by
    simp only [Selector.query, hp, ok_bind]
  rw [documentText_eq_ok_iff_query hd hf, hquery, Selector.leadsTo_iff selector]

end

theorem Source.depth_pos (s : Source) : 0 < s.depth := by
  unfold depth
  split <;> omega

/-- There is always depth enough to begin with. -/
theorem Source.exists_depthLimit_eq (s : Source) (ctx : Context) : ∃ n, s.depthLimit ctx = n + 1 := by
  have hs := s.depth_pos
  apply Nat.exists_eq_add_one.mpr
  simp only [depthLimit, patience, depthIn]
  omega

theorem Source.evaluate_document (w : World) (ctx : Context) (selector : String)
    (fileSelector : Option String) :
    (Source.document selector fileSelector).evaluate w ctx =
      documentText ctx selector fileSelector := by
  obtain ⟨n, hn⟩ := (Source.document selector fileSelector).exists_depthLimit_eq ctx
  rw [evaluate, hn]
  rfl

theorem Source.change_of_value {w : World} {ctx : Context} {s : Source} {key text : String}
    {e : Selector.Expression} {t : Tree} (he : Selector.parse key = .ok e)
    (hvalue : ∀ n, evaluateAt w (n + 1) { ctx with document := some t } s = Evaluation.of (.ok text)) :
    s.change w ctx none key t = Selector.set text e t := by
  obtain ⟨n, hn⟩ := s.exists_depthLimit_eq ctx
  rw [change, hn]
  simp only [changeWith, pure_bind, if_true, he, hvalue, Evaluation.of_ok_bind]
  rfl

/-- Three tests of a document agree. A filter whose keys are single paths accepts it if and only
if the conditions that its entries stand for let it through, in whatever order, and then they
yield the document itself. A condition on a path lets it through if and only if a reference to
that path comes to the text of the condition. -/
theorem document_tests_agree (t : Tree) :
    (∀ (filter : DocumentFilter) (conditions : List Selector.Comparison),
      List.Forall₂ DocumentFilter.StandsFor filter conditions →
      ∀ e : Selector.Expression, e.steps.Perm (conditions.map .select) →
        (filter.accepts t = .ok true ↔ ∃ u, Selector.evaluate t e = .ok u) ∧
        (∀ u, Selector.evaluate t e = .ok u → u = t) ∧
        ∃ accepted, filter.accepts t = .ok accepted) ∧
    ∀ (selector text : String) (p : Selector.Path),
      Selector.parse selector = .ok ⟨selector, [.path p]⟩ →
      ∀ (source : String) (w : World) (ctx : Context) (fileSelector : Option String),
        fileSelector.getD "" = "" →
        ((∃ u, Selector.evaluate t ⟨source, [.select ⟨p, .equal, .text text⟩]⟩ = .ok u) ↔
          (Source.document selector fileSelector).evaluate w { ctx with document := some t } =
            .ok text) := by
  refine ⟨fun filter conditions h e he => ?_, fun selector text p hp source w ctx file hf => ?_⟩
  · have hselect : ∀ s ∈ e.steps, ∃ c, s = .select c := by
      intro s hs
      obtain ⟨c, -, hc⟩ := List.mem_map.mp (he.mem_iff.mp hs)
      exact ⟨c, hc.symm⟩
    have heval : ∀ u, Selector.evaluate t e = .ok u ↔ u = t ∧ ∀ c ∈ conditions, c.keeps t = true := by
      intro u
      rw [Selector.evaluate_eq_ok_iff_head?, Selector.head?_allMatches_selects hselect]
      simp [he.mem_iff]
    rw [DocumentFilter.accepts_eq h]
    simp [heval]
  · rw [Source.evaluate_document, documentText_eq_ok_iff rfl hp hf, ← Selector.keeps_equal_iff]
    simp [Selector.evaluate_eq_ok_iff_head?, Selector.head?_allMatches_selects]

def manifest : Tree :=
  .map [("kind", .text "Service"), ("metadata", .map [("name", .text "web")])]

def isService : Selector.Comparison := ⟨[.field "kind"], .equal, .text "Service"⟩

def isNamed (name : String) : Selector.Comparison :=
  ⟨[.field "metadata", .field "name"], .equal, .text name⟩

def serviceNamed (name : String) : DocumentFilter := [("kind", "Service"), ("metadata.name", name)]

/-- The conditions of `serviceNamed`, the other way round. -/
def namedService (name : String) : Selector.Expression :=
  ⟨"", [.select (isNamed name), .select isService]⟩

theorem standFor_serviceNamed (name : String) :
    List.Forall₂ DocumentFilter.StandsFor (serviceNamed name) [isService, isNamed name] := by
  have hkind : Selector.parse (DocumentFilter.selectorText "kind") =
      .ok ⟨DocumentFilter.selectorText "kind", [.path [.field "kind"]]⟩ := by decide +kernel
  have hname : Selector.parse (DocumentFilter.selectorText "metadata.name") =
      .ok ⟨DocumentFilter.selectorText "metadata.name", [.path [.field "metadata", .field "name"]]⟩ := by
    decide +kernel
  exact .cons ⟨_, hkind, rfl⟩ (.cons ⟨_, hname, rfl⟩ .nil)

theorem document_tests_agree_manifest :
    (serviceNamed "web").accepts manifest = .ok true ∧
    Selector.evaluate manifest (namedService "web") = .ok manifest ∧
    (serviceNamed "api").accepts manifest = .ok false ∧
    (Source.document ".metadata.name" none).evaluate Source.bareWorld
      { Context.root "/srv" with document := some manifest } = .ok "web" := by
  obtain ⟨hfilter, hreference⟩ := document_tests_agree manifest
  have hperm : ∀ name, (namedService name).steps.Perm ([isService, isNamed name].map .select) :=
    fun name => List.Perm.swap ..
  have hweb := hfilter _ _ (standFor_serviceNamed "web") _ (hperm "web")
  have hapi := hfilter _ _ (standFor_serviceNamed "api") _ (hperm "api")
  obtain ⟨accepted, haccepted⟩ := hapi.2.2
  have hrejected : accepted = false := by
    cases accepted with
    | false => rfl
    | true =>
      obtain ⟨u, hu⟩ := hapi.1.mp haccepted
      cases hu
  have hpath : Selector.parse ".metadata.name" =
      .ok ⟨".metadata.name", [.path [.field "metadata", .field "name"]]⟩ := by decide +kernel
  exact ⟨hweb.1.mpr ⟨manifest, rfl⟩, rfl, hrejected ▸ haccepted,
    (hreference ".metadata.name" "web" _ hpath "" Source.bareWorld (.root "/srv") none rfl).mp
      ⟨manifest, rfl⟩⟩

end FieldPatch

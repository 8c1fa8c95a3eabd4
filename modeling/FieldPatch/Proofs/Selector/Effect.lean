import FieldPatch.Proofs.Selector.Set

/-! The whole effect of a write: one location is its target, what stands there is written over or
added, and all around it stays as it was. -/

namespace FieldPatch.Selector

variable {text : String} {e : Expression} {t t' : Tree} {changed : Bool}

/-- Where a write goes: to the location of the selected node, or, by fields and indices of which
the last is a field that its map lacks, to the place of that field. -/
inductive Target (t : Tree) (e : Expression) : Location → Prop
  | located {l : Location} (h : locate t e = .ok l) : Target t e l
  | added {ds : List DirectStep} {l : Location} {es : Entries Tree} {name : String}
    (he : e = .ofSteps e.source ds) (h : AddsField e.source t ds l es name) :
    Target t e (l ++ [.key name])

theorem ofSteps_inj {source : String} {ds ds' : List DirectStep}
    (h : Expression.ofSteps source ds = .ofSteps source ds') : ds = ds' := by
  rw [← trail_ofSteps source ds, h, trail_ofSteps]

theorem AddsField.unique {source name name' : String} {ds : List DirectStep} {l l' : Location}
    {es es' : Entries Tree} (h : AddsField source t ds l es name)
    (h' : AddsField source t ds l' es' name') : l = l' ∧ name = name' := by
  have hl := Except.ok.inj (h.parents.symm.trans h'.parents)
  have hn := Option.some.inj (h.last.symm.trans h'.last)
  exact ⟨hl, by simpa using hn⟩

theorem Target.unique {l l' : Location} (h : Target t e l) (h' : Target t e l') : l = l' := by
  have apart : ∀ {ds l es name m}, e = .ofSteps e.source ds → AddsField e.source t ds l es name →
      locate t e ≠ .ok m := by
    intro ds l es name m he ha hm
    rw [he, locate_addsField ha] at hm
    cases hm
  cases h with
  | located hl =>
    cases h' with
    | located hl' => exact Except.ok.inj (hl.symm.trans hl')
    | added he ha => exact absurd hl (apart he ha)
  | added he ha =>
    cases h' with
    | located hl' => exact absurd hl' (apart he ha)
    | added he' ha' =>
      obtain rfl := ofSteps_inj (he.symm.trans he')
      obtain ⟨rfl, rfl⟩ := ha.unique ha'
      rfl

theorem evaluate_of_get? {l : Location} {u : Tree} (h : locate t e = .ok l) (hu : t.get? l = some u) :
    evaluate t e = .ok u := by
  obtain ⟨v, hv, hg, -⟩ := evaluate_of_locate h
  rw [hv, Option.some.inj (hg.symm.trans hu)]

/-- The write of `text` through `e` that made `t'` of `t` was one to the location `l`, where
`u` stands now. -/
structure WritesAt (text : String) (e : Expression) (t t' : Tree) (l : Location) (u : Tree) :
    Prop where
  target : Target t e l
  only : ∀ m, Target t e m → m = l
  written : t'.get? l = some u
  content : (∃ old, t.get? l = some old ∧ old.Overwrites text u) ∨ t.get? l = none ∧ u = .text text
  around : t.SameAround l t'
  rereads : e.isPlain = true → evaluate t' e = .ok u

theorem writesAt_located {l : Location} {u u' : Tree} (hl : locate t e = .ok l)
    (hu : t.get? l = some u) (ho : u.overwrite text = .ok (u', changed)) :
    WritesAt text e t (t.replaceAt l u') l u' := by
  obtain ⟨hs, hs'⟩ := Tree.isScalar_of_overwrite ho
  have hg := Tree.get?_replaceAt_self hu u'
  have ha := Tree.SameAround.replaceAt hu (.scalar hs hs')
  rw [List.append_nil] at ha
  exact ⟨.located hl, fun m hm => hm.unique (.located hl), hg,
    .inl ⟨u, hu, Tree.overwrites_of_overwrite ho⟩, ha,
    fun hp => evaluate_of_get? (locate_replaceAt hp hl u') hg⟩

theorem writesAt_added {ds : List DirectStep} {l : Location} {es : Entries Tree} {name : String}
    (he : e = .ofSteps e.source ds) (h : AddsField e.source t ds l es name) :
    WritesAt text e t (t.replaceAt l (.map (es ++ [(name, .text text)]))) (l ++ [.key name])
      (.text text) := by
  obtain ⟨hl, hg⟩ := locate_added h (.text text)
  rw [← he] at hl
  exact ⟨.added he h, fun m hm => hm.unique (.added he h), hg, .inr ⟨get?_addsField h, rfl⟩,
    .replaceAt h.parent (.addEntry h.missing text), fun _ => evaluate_of_get? hl hg⟩

/-- A write that succeeds changes the tree at one location only: its target. There the scalar is
written over, keeping its kind if the text allows it, or a string is added. Every node elsewhere
stays as it was, and so do the lengths of all arrays and the keys of all maps, but for a key that
is added at the end of its map. A selector of fields and indices then leads to what was written. -/
theorem set_changes_target_only (h : set text e t = .ok (t', changed)) :
    ∃ l u, WritesAt text e t t' l u := by
  rcases set_cases h with ⟨l, u, u', hl, hu, ho, rfl⟩ | ⟨ds, l, es, name, he, ha, rfl, -⟩
  · exact ⟨l, u', writesAt_located hl hu ho⟩
  · exact ⟨l ++ [.key name], .text text, writesAt_added he ha⟩

def ports (db : Whole) : Tree :=
  .array [
    .map [("name", .text "web"), ("port", .number (.whole ⟨80, by decide⟩))],
    .map [("name", .text "db"), ("port", .number (.whole db))]]

def portOfDb : Expression :=
  ⟨".[] | select(.name == \"db\") | .port",
    [.path [.each], .select ⟨[.field "name"], .equal, .text "db"⟩, .path [.field "port"]]⟩

theorem set_changes_port_of_db :
    set "5433" portOfDb (ports ⟨5432, by decide⟩) = .ok (ports ⟨5433, by decide⟩, true) ∧
    ∃ l u, WritesAt "5433" portOfDb (ports ⟨5432, by decide⟩) (ports ⟨5433, by decide⟩) l u :=
  ⟨rfl, set_changes_target_only (show set "5433" portOfDb _ = .ok (_, true) from rfl)⟩

end FieldPatch.Selector

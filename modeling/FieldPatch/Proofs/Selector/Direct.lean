import FieldPatch.Proofs.Selector.Plain

/-! Writing directly against writing at the located node. The two agree on trees, flags and
errors, except that a direct path may end in a field that its map does not have yet. -/

namespace FieldPatch.Selector

theorem set_ofSteps (text source : String) (ds : List DirectStep) (t : Tree) :
    set text (.ofSteps source ds) t = writeDirect text ds t := by
  simp only [set, directPath?_eq_some_iff.mpr (rfl : Expression.ofSteps source ds = _)]

section

variable {t v : Tree} {d : DirectStep} {s : Segment} {text : String}

theorem writeDirect_cons_of_child (h : d.childOf t = .ok (s, v)) (ds : List DirectStep) :
    writeDirect text (d :: ds) t =
      (writeDirect text ds v).map fun r => (t.setChild s r.1, r.2) := by
  have hv := child?_of_childOf h
  cases d with
  | field name =>
    obtain ⟨es, rfl, rfl, he⟩ := childOf_field_ok h
    cases ds with
    | nil =>
      simp only [writeDirect, he, Option.isSome_some, if_true]
      exact Tree.writeField_of_child? hv _
    | cons d' ds => exact Tree.writeField_of_child? hv _
  | index i =>
    obtain ⟨xs, n, rfl, rfl, hn, -⟩ := childOf_index_ok h
    simp only [writeDirect, hn]
    exact Tree.writeItem_of_child? hv _

theorem writeDirect_cons_of_error {err : Error} (h : d.childOf t = .error err)
    (ds : List DirectStep) (hn : ds = [] → ∀ name es, d = .field name → t ≠ .map es) :
    writeDirect text (d :: ds) t = .error err := by
  cases d with
  | field name =>
    cases t with
    | map es =>
      cases ds with
      | nil => exact absurd rfl (hn rfl name es rfl)
      | cons d' ds =>
        simp only [DirectStep.childOf] at h
        simp only [writeDirect, Tree.writeField]
        cases he : Entries.get? name es with
        | none => simpa [he] using h
        | some v => simp [he] at h
    | _ =>
      obtain rfl := Except.error.inj h
      cases ds <;> rfl
  | index i =>
    cases t with
    | array xs =>
      cases hi : resolveIndex i xs.length with
      | error err' =>
        simp only [DirectStep.childOf, hi] at h
        simp only [writeDirect, hi]
        exact congrArg Except.error (Except.error.inj h)
      | ok n =>
        have hl := resolveIndex_lt hi
        simp [childOf_index_of_getElem? hi (List.getElem?_eq_getElem hl)] at h
    | _ =>
      obtain rfl := Except.error.inj h
      rfl

end

theorem writeDirect_of_descend {text : String} {ds : List DirectStep} {t u : Tree} {l : Location}
    (h : descend ds t = .ok (l, u)) :
    writeDirect text ds t = (u.overwrite text).map fun r => (t.replaceAt l r.1, r.2) := by
  induction ds generalizing t l with
  | nil =>
    obtain ⟨rfl, rfl⟩ : [] = l ∧ t = u := by simpa [descend] using h
    show t.overwrite text = (t.overwrite text).map fun r => (r.1, r.2)
    cases t.overwrite text <;> rfl
  | cons d ds ih =>
    obtain ⟨s, v, l', hc, hd, rfl⟩ := descend_cons_ok h
    rw [writeDirect_cons_of_child hc, ih hd]
    simp only [Tree.replaceAt_cons (child?_of_childOf hc)]
    cases u.overwrite text <;> rfl

theorem writeLocated_of_locate {text : String} {e : Expression} {t u : Tree} {l : Location}
    (h : locate t e = .ok l) (hu : t.get? l = some u) :
    writeLocated text e t = (u.overwrite text).map fun r => (t.replaceAt l r.1, r.2) := by
  simp only [writeLocated, h]
  exact Tree.writeAt_of_get? hu _

/-- All steps but the last lead to a map, at `l` and with the entries `es`, and the last one
names a field that this map does not have. -/
structure AddsField (source : String) (t : Tree) (ds : List DirectStep) (l : Location)
    (es : Entries Tree) (name : String) : Prop where
  parents : locate t (.ofSteps source ds.dropLast) = .ok l
  last : ds.getLast? = some (.field name)
  parent : t.get? l = some (.map es)
  missing : Entries.get? name es = none

theorem addsField_iff {source : String} {t : Tree} {ds : List DirectStep} {l : Location}
    {es : Entries Tree} {name : String} :
    AddsField source t ds l es name ↔ ∃ parents, ds = parents ++ [.field name] ∧
      descend parents t = .ok (l, .map es) ∧ Entries.get? name es = none := by
  constructor
  · rintro ⟨hp, hl, hm, hn⟩
    obtain ⟨parents, rfl⟩ := List.getLast?_eq_some_iff.mp hl
    rw [List.dropLast_concat, locate_ofSteps] at hp
    obtain ⟨⟨l', u⟩, hd, rfl⟩ := ok_of_map hp
    obtain rfl := Option.some.inj ((get?_of_descend hd).symm.trans hm)
    exact ⟨parents, rfl, hd, hn⟩
  · rintro ⟨parents, rfl, hd, hn⟩
    refine ⟨?_, by simp, get?_of_descend hd, hn⟩
    rw [List.dropLast_concat, locate_ofSteps, hd]
    rfl

section

variable {text name : String} {t : Tree} {l : Location} {es : Entries Tree}

theorem writeDirect_addsField {parents : List DirectStep} (h : descend parents t = .ok (l, .map es))
    (hn : Entries.get? name es = none) :
    writeDirect text (parents ++ [.field name]) t =
      .ok (t.replaceAt l (.map (es ++ [(name, .text text)])), true) := by
  induction parents generalizing t l with
  | nil =>
    obtain ⟨rfl, rfl⟩ : [] = l ∧ t = .map es := by simpa [descend] using h
    simp [writeDirect, hn]
  | cons d parents ih =>
    obtain ⟨s, v, l', hc, hd, rfl⟩ := descend_cons_ok h
    rw [List.cons_append, writeDirect_cons_of_child hc, ih hd,
      Tree.replaceAt_cons (child?_of_childOf hc)]
    rfl

theorem descend_addsField {parents : List DirectStep} (h : descend parents t = .ok (l, .map es))
    (hn : Entries.get? name es = none) :
    descend (parents ++ [.field name]) t = .error (.notFound (.field name)) := by
  have hc : (DirectStep.field name).childOf (.map es) = .error (.notFound (.field name)) := by
    simp [DirectStep.childOf, hn]
  rw [descend_append, h]
  show (descend [.field name] (.map es)).map _ = _
  rw [descend_cons_of_error hc]
  rfl

end

theorem writeDirect_of_descend_error {text : String} {ds : List DirectStep} {t : Tree}
    {err : Error} (h : descend ds t = .error err)
    (hn : ∀ parents l es name, ds = parents ++ [.field name] →
      descend parents t = .ok (l, .map es) → Entries.get? name es ≠ none) :
    writeDirect text ds t = .error err := by
  induction ds generalizing t with
  | nil => cases h
  | cons d ds ih =>
    cases hc : d.childOf t with
    | error err' =>
      obtain rfl : err' = err := Except.error.inj ((descend_cons_of_error hc ds).symm.trans h)
      apply writeDirect_cons_of_error hc
      rintro rfl name es rfl rfl
      -- the only step is the last one, and its map is the root
      have he := hn [] [] es name rfl rfl
      cases hv : Entries.get? name es with
      | none => exact he hv
      | some v => simp [DirectStep.childOf, hv] at hc
    | ok r =>
      obtain ⟨s, v⟩ := r
      have hd : descend ds v = .error err := by
        rw [descend_cons_of_child hc] at h
        cases hd : descend ds v with
        | error err' => rw [hd] at h; exact congrArg Except.error (Except.error.inj h)
        | ok q => rw [hd] at h; cases h
      have hn' : ∀ parents l es name, ds = parents ++ [.field name] →
          descend parents v = .ok (l, .map es) → Entries.get? name es ≠ none := by
        intro parents l es name he hp
        apply hn (d :: parents) (s :: l) es name (by simp [he])
        rw [descend_cons_of_child hc, hp]
        rfl
      rw [writeDirect_cons_of_child hc, ih hd hn']
      rfl

theorem set_addsField {text source name : String} {t : Tree} {ds : List DirectStep} {l : Location}
    {es : Entries Tree} (h : AddsField source t ds l es name) :
    set text (.ofSteps source ds) t =
      .ok (t.replaceAt l (.map (es ++ [(name, .text text)])), true) := by
  obtain ⟨parents, rfl, hd, hn⟩ := addsField_iff.mp h
  rw [set_ofSteps, writeDirect_addsField hd hn]

theorem locate_addsField {source name : String} {t : Tree} {ds : List DirectStep} {l : Location}
    {es : Entries Tree} (h : AddsField source t ds l es name) :
    locate t (.ofSteps source ds) = .error (.notFound (.field name)) := by
  obtain ⟨parents, rfl, hd, hn⟩ := addsField_iff.mp h
  rw [locate_ofSteps, descend_addsField hd hn]
  rfl

theorem set_ofSteps_eq_writeLocated {text source : String} {t : Tree} {ds : List DirectStep}
    (h : ¬ ∃ l es name, AddsField source t ds l es name) :
    set text (.ofSteps source ds) t = writeLocated text (.ofSteps source ds) t := by
  have hl : locate t (.ofSteps source ds) = (descend ds t).map Prod.fst := locate_ofSteps source ds t
  rw [set_ofSteps]
  cases hd : descend ds t with
  | error err =>
    rw [hd] at hl
    rw [writeDirect_of_descend_error hd]
    · simp only [writeLocated, hl]
      rfl
    · intro parents l es name he hp hn
      exact h ⟨l, es, name, addsField_iff.mpr ⟨parents, he, hp, hn⟩⟩
  | ok r =>
    rw [hd] at hl
    rw [writeDirect_of_descend hd, writeLocated_of_locate hl (get?_of_descend hd)]

/-- Writing directly is locating the node and writing over it, on every tree and with every
error, but for one case: a last field that its map lacks is added at the end of the map,
where locating finds nothing. -/
theorem set_direct_agrees (text source : String) (t : Tree) (ds : List DirectStep) :
    (∀ l es name, AddsField source t ds l es name →
      set text (.ofSteps source ds) t =
        .ok (t.replaceAt l (.map (es ++ [(name, .text text)])), true) ∧
      writeLocated text (.ofSteps source ds) t = .error (.notFound (.field name))) ∧
    ((¬ ∃ l es name, AddsField source t ds l es name) →
      set text (.ofSteps source ds) t = writeLocated text (.ofSteps source ds) t) := by
  refine ⟨fun l es name h => ⟨set_addsField h, ?_⟩, set_ofSteps_eq_writeLocated⟩
  simp only [writeLocated, locate_addsField h]
  rfl

end FieldPatch.Selector

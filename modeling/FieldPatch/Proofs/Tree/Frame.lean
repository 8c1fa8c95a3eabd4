import FieldPatch.Proofs.Tree.Growth

/-! What another node in one place leaves as it was. Locations that do not lead to that place keep
their nodes, and on the way there arrays keep their length and maps their keys. -/

namespace FieldPatch.Tree

/-- The trees differ at `l` at most. Above it, arrays have the same length and maps the same keys,
but for the last key of `l` where that is new, at the end of its map. -/
structure SameAround (l : Location) (t t' : Tree) : Prop where
  elsewhere : ∀ m, ¬ m <+: l → t'.get? m = t.get? m
  array : ∀ m xs, t.get? m = some (.array xs) →
    ∃ xs', t'.get? m = some (.array xs') ∧ xs'.length = xs.length
  map : ∀ m es, t.get? m = some (.map es) → ∃ es', t'.get? m = some (.map es') ∧
    (Entries.keys es' = Entries.keys es ∨
      ∃ name, l = m ++ [.key name] ∧ name ∉ Entries.keys es ∧
        Entries.keys es' = Entries.keys es ++ [name])

theorem get?_cons_of_child?_eq_none {t : Tree} {s : Segment} (h : t.child? s = none) (l : Location) :
    t.get? (s :: l) = none := by
  simp [get?, h]

theorem get?_cons_congr {t t' : Tree} {s : Segment} (h : t'.child? s = t.child? s) (l : Location) :
    t'.get? (s :: l) = t.get? (s :: l) := by
  simp only [get?, h]

theorem get?_of_isScalar {t : Tree} (h : t.isScalar = true) {l : Location} (hl : l ≠ []) :
    t.get? l = none := by
  cases l with
  | nil => exact absurd rfl hl
  | cons s l => exact get?_cons_of_child?_eq_none (child?_of_isScalar h s) l

theorem child?_setChild_of_ne {s s' : Segment} (h : s' ≠ s) (t u : Tree) :
    (t.setChild s u).child? s' = t.child? s' := by
  cases t with
  | map es =>
    cases s with
    | index i => rfl
    | key name =>
      cases s' with
      | index j => rfl
      | key other => exact Entries.get?_put_of_ne (by rintro rfl; exact h rfl) u es
  | array xs =>
    cases s with
    | key name => rfl
    | index i =>
      cases s' with
      | key other => rfl
      | index j => exact List.getElem?_set_ne (by rintro rfl; exact h rfl)
  | _ => rfl

theorem SameAround.scalar {u u' : Tree} (hu : u.isScalar = true) (hu' : u'.isScalar = true) :
    SameAround [] u u' := by
  refine ⟨fun m hm => ?_, fun m xs h => ?_, fun m es h => ?_⟩
  · have hne : m ≠ [] := fun he => hm (he ▸ List.prefix_refl [])
    rw [get?_of_isScalar hu hne, get?_of_isScalar hu' hne]
  · cases m with
    | nil => cases h; cases hu
    | cons s m => rw [get?_of_isScalar hu (List.cons_ne_nil s m)] at h; cases h
  · cases m with
    | nil => cases h; cases hu
    | cons s m => rw [get?_of_isScalar hu (List.cons_ne_nil s m)] at h; cases h

theorem SameAround.addEntry {name : String} {es : Entries Tree} (hn : Entries.get? name es = none)
    (text : String) :
    SameAround [.key name] (.map es) (.map (es ++ [(name, .text text)])) := by
  have hnone : (Tree.map es).child? (.key name) = none := hn
  have hmem := Entries.get?_eq_none_iff.mp hn
  have hput := Entries.put_eq_append hmem (Tree.text text)
  have hset : Tree.map (es ++ [(name, .text text)]) = (Tree.map es).setChild (.key name) (.text text) := by
    rw [← hput]
    rfl
  -- below the root the two maps have the same nodes, but for the new key itself
  have hbelow : ∀ s m, (Tree.map es).get? (s :: m) ≠ none ∨ ¬ s :: m <+: [.key name] →
      (Tree.map (es ++ [(name, .text text)])).get? (s :: m) = (Tree.map es).get? (s :: m) := by
    intro s m h
    by_cases hs : s = .key name
    · subst hs
      have hold := get?_cons_of_child?_eq_none hnone m
      have hnew : (Tree.map (es ++ [(name, .text text)])).child? (.key name) = some (.text text) := by
        rw [← hput]
        exact Entries.get?_put_self name _ es
      have hm : m ≠ [] := by
        rintro rfl
        rcases h with h | h
        · exact h hold
        · exact h (List.prefix_refl _)
      rw [hold, get?_cons hnew]
      exact get?_of_isScalar rfl hm
    · rw [hset]
      exact get?_cons_congr (child?_setChild_of_ne hs _ _) m
  refine ⟨fun m hm => ?_, fun m xs h => ?_, fun m fs h => ?_⟩
  · cases m with
    | nil => exact absurd List.nil_prefix hm
    | cons s m => exact hbelow s m (.inr hm)
  · cases m with
    | nil => cases h
    | cons s m => exact ⟨xs, (hbelow s m (.inl (by simp [h]))).trans h, rfl⟩
  · cases m with
    | nil =>
      cases h
      exact ⟨_, rfl, .inr ⟨name, rfl, hmem, by simp [Entries.keys]⟩⟩
    | cons s m => exact ⟨fs, (hbelow s m (.inl (by simp [h]))).trans h, .inl rfl⟩

theorem SameAround.setChild {t c c' : Tree} {s : Segment} {l : Location} (hc : t.child? s = some c)
    (h : SameAround l c c') : SameAround (s :: l) t (t.setChild s c') := by
  have hc' := child?_setChild_self hc c'
  refine ⟨fun m hm => ?_, fun m xs hx => ?_, fun m es he => ?_⟩
  · cases m with
    | nil => exact absurd List.nil_prefix hm
    | cons s' m =>
      by_cases hs : s' = s
      · subst hs
        rw [get?_cons hc, get?_cons hc']
        exact h.elsewhere m fun hp => hm (List.cons_prefix_cons.mpr ⟨rfl, hp⟩)
      · exact get?_cons_congr (child?_setChild_of_ne hs t c') m
  · cases m with
    | nil =>
      obtain rfl : t = .array xs := by simpa using hx
      cases s with
      | key name => cases hc
      | index i => exact ⟨_, rfl, List.length_set⟩
    | cons s' m =>
      by_cases hs : s' = s
      · subst hs
        rw [get?_cons hc] at hx
        rw [get?_cons hc']
        exact h.array m xs hx
      · rw [get?_cons_congr (child?_setChild_of_ne hs t c') m]
        exact ⟨xs, hx, rfl⟩
  · cases m with
    | nil =>
      obtain rfl : t = .map es := by simpa using he
      cases s with
      | index i => cases hc
      | key name =>
        obtain ⟨j, hj, -⟩ := Entries.put_eq_set hc c'
        have hm : name ∈ Entries.keys es := List.mem_map.mpr ⟨_, List.mem_of_getElem? hj, rfl⟩
        exact ⟨_, rfl, .inl (Entries.keys_put_of_mem hm c')⟩
    | cons s' m =>
      by_cases hs : s' = s
      · subst hs
        rw [get?_cons hc] at he
        rw [get?_cons hc']
        obtain ⟨es', hes', hk⟩ := h.map m es he
        refine ⟨es', hes', hk.imp_right ?_⟩
        rintro ⟨name, rfl, hn, hkeys⟩
        exact ⟨name, rfl, hn, hkeys⟩
      · rw [get?_cons_congr (child?_setChild_of_ne hs t c') m]
        exact ⟨es, he, .inl rfl⟩

theorem SameAround.replaceAt {t u u' : Tree} {l m : Location} (hu : t.get? l = some u)
    (h : SameAround m u u') : SameAround (l ++ m) t (t.replaceAt l u') := by
  induction l generalizing t with
  | nil =>
    obtain rfl : t = u := by simpa using hu
    exact h
  | cons s l ih =>
    obtain ⟨c, hc, hl⟩ := exists_child_of_get? hu
    rw [replaceAt_cons hc]
    exact .setChild hc (ih hl)

end FieldPatch.Tree

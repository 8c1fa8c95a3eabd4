import FieldPatch.Proofs.Tree.Frame

/-! Replacing nodes in two places. Places of which neither lies below the other do not see each
other, and a node keeps its kind if one below it is replaced. -/

namespace FieldPatch

theorem Entries.put_put_self {α : Type} (key : String) (v v' : α) (es : Entries α) :
    put key v' (put key v es) = put key v' es := by
  induction es with
  | nil => simp [put]
  | cons e rest ih =>
    obtain ⟨k, old⟩ := e
    by_cases hk : k = key
    · simp [put, hk]
    · simp [put, hk, ih]

/-- Of two keys, the one that is there already stays in front of what the other one may add. -/
theorem Entries.put_comm {α : Type} {key key' : String} {es : Entries α} (hne : key ≠ key')
    (h : key ∈ keys es) (v v' : α) :
    put key v (put key' v' es) = put key' v' (put key v es) := by
  induction es with
  | nil => simp [keys] at h
  | cons e rest ih =>
    obtain ⟨k, old⟩ := e
    by_cases hk : k = key
    · have hk' : k ≠ key' := fun he => hne (hk.symm.trans he)
      simp [put, hk, hk ▸ hk']
    · have hr : key ∈ keys rest := by
        simpa [keys, Ne.symm hk] using h
      by_cases hk' : k = key'
      · simp [put, hk', Ne.symm hne]
      · simp [put, hk, hk', ih hr]

namespace Tree

variable {t u v c : Tree} {s s' : Segment} {l m : Location}

theorem setChild_setChild_self (t : Tree) (s : Segment) (u u' : Tree) :
    (t.setChild s u).setChild s u' = t.setChild s u' := by
  cases t with
  | map es =>
    cases s with
    | key name => simp only [setChild, Entries.put_put_self]
    | index i => rfl
  | array xs =>
    cases s with
    | key name => rfl
    | index i => simp only [setChild, List.set_set]
  | _ => rfl

theorem setChild_comm (hne : s ≠ s') (h : t.child? s = some c) (u u' : Tree) :
    (t.setChild s' u').setChild s u = (t.setChild s u).setChild s' u' := by
  cases t with
  | map es =>
    cases s with
    | index i => cases h
    | key name =>
      cases s' with
      | index j => rfl
      | key other =>
        have hkeys : name ∈ Entries.keys es := by
          by_contra hn
          rw [← Entries.get?_eq_none_iff] at hn
          cases hn.symm.trans h
        have hkey : name ≠ other := fun he => hne (he ▸ rfl)
        simp only [setChild, Entries.put_comm hkey hkeys]
  | array xs =>
    cases s with
    | key name => cases h
    | index i =>
      cases s' with
      | key other => rfl
      | index j =>
        have hij : j ≠ i := fun he => hne (he ▸ rfl)
        simp only [setChild, List.set_comm _ _ hij]
  | _ => cases h

theorem replaceAt_append (hu : t.get? l = some u) (m : Location) (x : Tree) :
    t.replaceAt (l ++ m) x = t.replaceAt l (u.replaceAt m x) := by
  induction l generalizing t with
  | nil =>
    obtain rfl : t = u := by simpa using hu
    rfl
  | cons s l ih =>
    obtain ⟨c, hc, hl⟩ := exists_child_of_get? hu
    rw [List.cons_append, replaceAt_cons hc, replaceAt_cons hc, ih hl]

/-- Neither of two places is the other one or lies below it. -/
def Separate (l m : Location) : Prop := ¬ l <+: m ∧ ¬ m <+: l

theorem Separate.symm (h : Separate l m) : Separate m l := ⟨h.2, h.1⟩

theorem separate_cons_iff : Separate (s :: l) (s' :: m) ↔ s = s' → Separate l m := by
  simp only [Separate, List.cons_prefix_cons]
  constructor
  · rintro ⟨h, h'⟩ rfl
    exact ⟨fun hp => h ⟨rfl, hp⟩, fun hp => h' ⟨rfl, hp⟩⟩
  · exact fun h => ⟨fun hp => (h hp.1).1 hp.2, fun hp => (h hp.1.symm).2 hp.2⟩

theorem Separate.exists_cons (h : Separate l m) :
    ∃ s l' s' m', l = s :: l' ∧ m = s' :: m' := by
  cases l with
  | nil => exact absurd List.nil_prefix h.1
  | cons s l =>
    cases m with
    | nil => exact absurd List.nil_prefix h.2
    | cons s' m => exact ⟨s, l, s', m, rfl, rfl⟩

/-- Two different places are separate, or one of them lies below the other. -/
theorem separate_or_below (h : l ≠ m) :
    Separate l m ∨ (∃ s k, m = l ++ s :: k) ∨ ∃ s k, l = m ++ s :: k := by
  have hbelow : ∀ {l m : Location}, l ≠ m → l <+: m → ∃ s k, m = l ++ s :: k := by
    rintro l _ hne ⟨k, rfl⟩
    cases k with
    | nil => simp at hne
    | cons s k => exact ⟨s, k, rfl⟩
  by_cases hl : l <+: m
  · exact .inr (.inl (hbelow h hl))
  · by_cases hm : m <+: l
    · exact .inr (.inr (hbelow h.symm hm))
    · exact .inl ⟨hl, hm⟩

theorem replaceAt_comm (h : Separate l m) (hu : t.get? l = some u) (hv : t.get? m = some v)
    (x y : Tree) : (t.replaceAt l x).replaceAt m y = (t.replaceAt m y).replaceAt l x := by
  induction l generalizing t m with
  | nil => exact absurd List.nil_prefix h.1
  | cons s l ih =>
    obtain ⟨_, _, s', m, -, rfl⟩ := h.exists_cons
    obtain ⟨c, hc, hl⟩ := exists_child_of_get? hu
    obtain ⟨d, hd, hm⟩ := exists_child_of_get? hv
    rw [replaceAt_cons hc, replaceAt_cons hd]
    by_cases hs : s = s'
    · subst hs
      obtain rfl := Option.some.inj (hc.symm.trans hd)
      have hlm := ih (separate_cons_iff.mp h rfl) hl hm
      rw [replaceAt_cons (child?_setChild_self hc _), replaceAt_cons (child?_setChild_self hc _),
        setChild_setChild_self, setChild_setChild_self, hlm]
    · have hd' : (t.setChild s (c.replaceAt l x)).child? s' = some d := by
        rw [child?_setChild_of_ne (Ne.symm hs), hd]
      have hc' : (t.setChild s' (d.replaceAt m y)).child? s = some c := by
        rw [child?_setChild_of_ne hs, hc]
      rw [replaceAt_cons hd', replaceAt_cons hc']
      exact (setChild_comm hs hc _ _).symm

theorem isScalar_of_get?_cons (h : t.get? (s :: l) = some u) : t.isScalar = false := by
  obtain ⟨c, hc, -⟩ := exists_child_of_get? h
  cases hs : t.isScalar with
  | false => rfl
  | true => cases (child?_of_isScalar hs s).symm.trans hc

theorem kind_replaceAt_cons (h : t.get? (s :: l) = some u) (x : Tree) :
    (t.replaceAt (s :: l) x).kind = t.kind := by
  obtain ⟨c, hc, -⟩ := exists_child_of_get? h
  rw [replaceAt_cons hc]
  cases t <;> cases s <;> rfl

end Tree

end FieldPatch

import FieldPatch.Tree.Entries
import Mathlib.Data.List.Nodup

/-! Maps made of pairs: with keys that are all different they are the pairs themselves, and with a
key that comes twice they are not. What counts for a key is its last pair. -/

namespace FieldPatch.Entries

variable {α : Type}

theorem get?_eq_none_iff {key : String} {es : Entries α} : get? key es = none ↔ key ∉ keys es := by
  induction es with
  | nil => simp [get?, keys]
  | cons e rest ih =>
    obtain ⟨k, v⟩ := e
    by_cases hk : k = key
    · simp [get?, keys, hk]
    · simpa [get?, keys, hk, Ne.symm hk] using ih

theorem nodup_keys_put {es : Entries α} (h : (keys es).Nodup) (key : String) (v : α) :
    (keys (put key v es)).Nodup := by
  by_cases hk : key ∈ keys es
  · rwa [keys_put_of_mem hk]
  · rw [put_eq_append hk]
    simpa [keys, List.nodup_append] using ⟨h, fun k w hm he => hk (he ▸ List.mem_map.mpr ⟨_, hm, rfl⟩)⟩

theorem foldl_put_eq_append {es pairs : List (String × α)} (h : (keys (es ++ pairs)).Nodup) :
    pairs.foldl (fun fs (k, v) => put k v fs) es = es ++ pairs := by
  induction pairs generalizing es with
  | nil => simp
  | cons e pairs ih =>
    obtain ⟨k, v⟩ := e
    have he : es ++ (k, v) :: pairs = (es ++ [(k, v)]) ++ pairs := by simp
    have hk : k ∉ keys es := by
      intro hm
      simp only [keys, List.map_append, List.map_cons, List.nodup_append] at h hm
      exact h.2.2 k hm k List.mem_cons_self rfl
    show pairs.foldl _ (put k v es) = _
    rw [put_eq_append hk, he]
    exact ih (he ▸ h)

theorem nodup_keys_foldl_put {es : Entries α} (h : (keys es).Nodup) (pairs : List (String × α)) :
    (keys (pairs.foldl (fun fs (k, v) => put k v fs) es)).Nodup := by
  induction pairs generalizing es with
  | nil => exact h
  | cons e pairs ih => exact ih (nodup_keys_put h e.1 e.2)

theorem nodup_keys_ofPairs (pairs : List (String × α)) : (keys (ofPairs pairs)).Nodup :=
  nodup_keys_foldl_put (by simp [keys]) pairs

/-- Entering pairs keeps all of them exactly if their keys are all different. -/
theorem ofPairs_eq_self_iff {pairs : List (String × α)} :
    ofPairs pairs = pairs ↔ (keys pairs).Nodup := by
  constructor
  · intro h
    rw [← h]
    exact nodup_keys_ofPairs pairs
  · exact fun h => foldl_put_eq_append h

/-- The value of the last pair with this key. -/
def last? (key : String) (pairs : List (String × α)) : Option α :=
  ((pairs.filter fun p => p.1 == key).map Prod.snd).getLast?

variable {pairs others : List (String × α)} {key : String}

theorem last?_cons (key : String) (p : String × α) (pairs : List (String × α)) :
    last? key (p :: pairs) = (last? key pairs).or (if p.1 = key then some p.2 else none) := by
  by_cases hk : p.1 = key
  · have hf : (p :: pairs).filter (fun q => q.1 == key) = p :: pairs.filter fun q => q.1 == key := by
      simp [hk]
    rw [last?, last?, hf, List.map_cons, List.getLast?_cons, if_pos hk]
    cases ((pairs.filter fun q => q.1 == key).map Prod.snd).getLast? <;> rfl
  · simp [last?, hk]

theorem last?_eq_none_iff : last? key pairs = none ↔ key ∉ keys pairs := by
  have hm : key ∈ keys pairs ↔ ∃ p ∈ pairs, p.1 = key := List.mem_map
  rw [last?, List.getLast?_eq_none_iff, List.map_eq_nil_iff, List.filter_eq_nil_iff, hm]
  simp only [beq_iff_eq, not_exists, not_and]

theorem get?_foldl_put (key : String) (pairs : List (String × α)) (es : Entries α) :
    get? key (pairs.foldl (fun fs (k, v) => put k v fs) es) =
      (last? key pairs).or (get? key es) := by
  induction pairs generalizing es with
  | nil => rfl
  | cons p pairs ih =>
    obtain ⟨k, v⟩ := p
    show get? key (pairs.foldl _ (put k v es)) = _
    rw [ih, last?_cons]
    by_cases hk : k = key
    · subst hk
      simp
    · simp [hk, get?_put_of_ne (Ne.symm hk)]

theorem get?_ofPairs (key : String) (pairs : List (String × α)) :
    get? key (ofPairs pairs) = last? key pairs := by
  rw [ofPairs, get?_foldl_put]
  exact Option.or_none

theorem mem_keys_ofPairs : key ∈ keys (ofPairs pairs) ↔ key ∈ keys pairs := by
  have h : key ∉ keys (ofPairs pairs) ↔ key ∉ keys pairs := by
    rw [← get?_eq_none_iff, get?_ofPairs, last?_eq_none_iff]
  exact not_iff_not.mp h

theorem last?_of_perm (h : others.Perm pairs) (hn : (keys pairs).Nodup) (key : String) :
    last? key others = last? key pairs := by
  induction h with
  | nil => rfl
  | cons p _ ih =>
    have htail : (keys _).Nodup := (List.nodup_cons.mp hn).2
    rw [last?_cons, last?_cons, ih htail]
  | swap p q l =>
    have hne : p.1 ≠ q.1 := by
      intro he
      exact (List.nodup_cons.mp hn).1 (by simp [he])
    simp only [last?_cons, Option.or_assoc]
    by_cases hp : p.1 = key
    · have hq : q.1 ≠ key := fun hq => hne (hp.trans hq.symm)
      simp only [hq, if_false, Option.or_none, Option.none_or]
    · simp only [hp, if_false, Option.or_none, Option.none_or]
  | trans _ h₂ ih₁ ih₂ =>
    have hmid : (keys _).Nodup := (h₂.map Prod.fst).nodup_iff.mpr hn
    rw [ih₁ hmid, ih₂ hn]

end FieldPatch.Entries

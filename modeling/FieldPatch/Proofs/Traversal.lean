import FieldPatch.Proofs.Except
import Mathlib.Data.List.Forall2

/-! Passes over lists that may fail at an element: what is known of all elements when none did, and
of one of them when the pass did. -/

namespace FieldPatch

variable {ε α β : Type} {f : α → Except ε β}

theorem mapM_cons_eq (f : α → Except ε β) (x : α) (xs : List α) :
    (x :: xs).mapM f = f x >>= fun y => (xs.mapM f).map (y :: ·) := by
  rw [List.mapM_cons]
  cases f x with
  | error e => rfl
  | ok y => cases xs.mapM f <;> rfl

theorem eq_mapM (g : List α → Except ε (List β)) (hnil : g [] = .ok [])
    (hcons : ∀ x xs, g (x :: xs) = f x >>= fun y => (g xs).map (y :: ·)) (xs : List α) :
    g xs = xs.mapM f := by
  induction xs with
  | nil => exact hnil
  | cons x xs ih => rw [hcons, ih, mapM_cons_eq]

theorem mapM_eq_ok_iff {xs : List α} {ys : List β} :
    xs.mapM f = .ok ys ↔ List.Forall₂ (fun x y => f x = .ok y) xs ys := by
  induction xs generalizing ys with
  | nil =>
    rw [List.forall₂_nil_left_iff]
    exact ⟨fun h => (Except.ok.inj h).symm, fun h => congrArg Except.ok h.symm⟩
  | cons x xs ih =>
    rw [mapM_cons_eq]
    constructor
    · intro h
      obtain ⟨y, hy, hr⟩ := ok_of_bind h
      obtain ⟨zs, hz, rfl⟩ := ok_of_map hr
      exact .cons hy (ih.mp hz)
    · rintro (_ | ⟨hy, hr⟩)
      rw [hy, ok_bind, ih.mpr hr]
      rfl

theorem exists_forall₂ {R : α → β → Prop} {xs : List α} (h : ∀ x ∈ xs, ∃ y, R x y) :
    ∃ ys, List.Forall₂ R xs ys := by
  induction xs with
  | nil => exact ⟨[], .nil⟩
  | cons x xs ih =>
    obtain ⟨y, hy⟩ := h x List.mem_cons_self
    obtain ⟨ys, hys⟩ := ih fun x hx => h x (List.mem_cons_of_mem _ hx)
    exact ⟨y :: ys, .cons hy hys⟩

theorem exists_error_of_mapM {xs : List α} {e : ε} (h : xs.mapM f = .error e) :
    ∃ x ∈ xs, f x = .error e := by
  induction xs with
  | nil => cases h
  | cons x xs ih =>
    rw [mapM_cons_eq] at h
    rcases error_of_bind h with hx | ⟨y, -, hr⟩
    · exact ⟨x, List.mem_cons_self, hx⟩
    · cases hm : xs.mapM f with
      | ok ys => rw [hm] at hr; cases hr
      | error e' =>
        rw [hm] at hr
        cases hr
        obtain ⟨x', hx', he⟩ := ih hm
        exact ⟨x', List.mem_cons_of_mem _ hx', he⟩

theorem exists_ok_of_forall₂ {R : α → β → Prop} {xs : List α} {ys : List β}
    (h : List.Forall₂ R xs ys) {x : α} (hx : x ∈ xs) : ∃ y ∈ ys, R x y := by
  induction h with
  | nil => cases hx
  | @cons a b xs ys hab _ ih =>
    rcases List.mem_cons.mp hx with rfl | hx
    · exact ⟨b, List.mem_cons_self, hab⟩
    · obtain ⟨y, hy, hr⟩ := ih hx
      exact ⟨y, List.mem_cons_of_mem _ hy, hr⟩

end FieldPatch

import FieldPatch.Tree.Write

/-! Writing text over one scalar: what is left there, and whether the flag tells that it is
something else. The flag compares texts and a number keeps its kind, so it is raised for
nothing where the text spells the same number in another way. -/

namespace FieldPatch

/-- The number that a text is read as: the integer that it is, in the signed range, or else a
finite double. -/
inductive Number.Spelled (text : String) : Number → Prop
  | whole {n : Whole} (h : readSigned64? text.toList = some n.value) : Spelled text (.whole n)
  | float {x : Binary64} (hn : readSigned64? text.toList = none)
    (h : Binary64.read? text.toList = some x) (hx : x.isFinite = true) : Spelled text (.float x hx)

theorem Number.ofInt?_of_fitsSigned64 {n : Int} (h : fitsSigned64 n = true) :
    ∃ w : Whole, w.value = n ∧ ofInt? n = some (.whole w) := by
  simp only [fitsSigned64, Bool.and_eq_true, decide_eq_true_eq] at h
  have hr : -0x8000000000000000 ≤ n ∧ n < 0x10000000000000000 := by omega
  exact ⟨⟨n, hr⟩, rfl, by simp [ofInt?, Whole.ofInt?, hr]⟩

theorem Number.ofFloat?_eq_some_iff {x : Binary64} {n : Number} :
    ofFloat? x = some n ↔ ∃ hx : x.isFinite = true, n = .float x hx := by
  by_cases hx : x.isFinite = true
  · simp [ofFloat?, hx, eq_comm]
  · simp [ofFloat?, hx]

theorem Number.read?_eq_some_iff {text : String} {n : Number} :
    read? text = some n ↔ Spelled text n := by
  unfold read?
  constructor
  · intro h
    split at h
    · next i hi =>
      obtain ⟨w, rfl, hw⟩ := ofInt?_of_fitsSigned64 (Option.filter_eq_some_iff.mp hi).2
      obtain rfl := Option.some.inj (hw.symm.trans h)
      exact .whole hi
    · next hi =>
      obtain ⟨x, hx, hf⟩ := Option.bind_eq_some_iff.mp h
      obtain ⟨hfin, rfl⟩ := ofFloat?_eq_some_iff.mp hf
      exact .float hi hx hfin
  · intro h
    cases h with
    | @whole w hw =>
      obtain ⟨w', he, hi⟩ := ofInt?_of_fitsSigned64 (Option.filter_eq_some_iff.mp hw).2
      have hww : w' = w := by
        cases w'
        cases w
        simpa using he
      rw [hw, ← hww, ← hi, hww]
    | float hn hx hf =>
      rw [hn, hx]
      exact ofFloat?_eq_some_iff.mpr ⟨hf, rfl⟩

namespace Tree

/-- The node is a number, and `text` another spelling of that number. -/
def Respelled (text : String) (u : Tree) : Prop :=
  ∃ n, u = .number n ∧ n.render ≠ text ∧ Number.read? text = some n

/-- What a write of `text` leaves: the text itself, or the number that it is read as. -/
def Settled (text : String) (u : Tree) : Prop :=
  u.scalarText = some text ∨ ∃ n, u = .number n ∧ Number.read? text = some n

theorem settled_rescalar (u : Tree) (text : String) : (u.rescalar text).Settled text := by
  cases u with
  | number n =>
    simp only [rescalar]
    cases hr : Number.read? text with
    | none => exact .inl rfl
    | some m => exact .inr ⟨m, rfl, hr⟩
  | bool b =>
    simp only [rescalar]
    split
    · next h => exact .inl (by simp [scalarText, h])
    · split
      · next h => exact .inl (by simp [scalarText, h])
      · exact .inl rfl
  | _ => exact .inl rfl

theorem rescalar_eq_self_iff {u : Tree} {current text : String} (hu : u.scalarText = some current)
    (hne : current ≠ text) : u.rescalar text = u ↔ u.Respelled text := by
  cases u with
  | number n =>
    have hn : n.render ≠ text := by
      obtain rfl : n.render = current := by simpa [scalarText] using hu
      exact hne
    simp only [rescalar, Respelled, number.injEq, exists_eq_left']
    cases hr : Number.read? text with
    | none => simp
    | some m => simp [hn]
  | bool b =>
    have hb : (if b then "true" else "false") ≠ text := by
      obtain rfl : (if b then "true" else "false") = current := by simpa [scalarText] using hu
      exact hne
    simp only [rescalar, Respelled, reduceCtorEq, false_and, exists_false, iff_false]
    split
    · next h => cases b <;> simp_all
    · split
      · next h => cases b <;> simp_all
      · simp
  | text s =>
    have hs : s ≠ text := by
      obtain rfl : s = current := by simpa [scalarText] using hu
      exact hne
    simp [rescalar, Respelled, hs.symm]
  | null => simp [rescalar, Respelled]
  | array xs => simp [scalarText] at hu
  | map es => simp [scalarText] at hu

theorem overwrite_cases {text : String} {u u' : Tree} {changed : Bool}
    (h : u.overwrite text = .ok (u', changed)) :
    (u.scalarText = some text ∧ u' = u ∧ changed = false) ∨
      ∃ current, u.scalarText = some current ∧ current ≠ text ∧ u' = u.rescalar text ∧
        changed = true := by
  unfold overwrite at h
  split at h
  · cases h
  · next current hc =>
    by_cases he : current = text
    · simp only [he, if_true, Except.ok.injEq, Prod.mk.injEq] at h
      exact .inl ⟨he ▸ hc, h.1.symm, h.2.symm⟩
    · simp only [he, if_false, Except.ok.injEq, Prod.mk.injEq] at h
      exact .inr ⟨current, hc, he, h.1.symm, h.2.symm⟩

/-- What a write of `text` makes of a scalar: a number that the text spells of a number, a boolean
of a boolean, and otherwise a string, but nothing of a scalar that has this text already. -/
inductive Overwrites (text : String) : Tree → Tree → Prop
  | same {u : Tree} (h : u.scalarText = some text) : Overwrites text u u
  | number {n m : Number} (hne : n.render ≠ text) (h : Number.Spelled text m) :
    Overwrites text (.number n) (.number m)
  | bool {b b' : Bool} (hne : (Tree.bool b).scalarText ≠ some text)
    (h : (Tree.bool b').scalarText = some text) : Overwrites text (.bool b) (.bool b')
  | text {u : Tree} {current : String} (hu : u.scalarText = some current) (hne : current ≠ text)
    (hn : u.kind = .number → ∀ m, ¬ Number.Spelled text m)
    (hb : u.kind = .boolean → text ≠ "true" ∧ text ≠ "false") : Overwrites text u (.text text)

theorem overwrites_rescalar {u : Tree} {current text : String} (hu : u.scalarText = some current)
    (hne : current ≠ text) : u.Overwrites text (u.rescalar text) := by
  cases u with
  | number n =>
    have hn : n.render ≠ text := by
      obtain rfl : n.render = current := by simpa [scalarText] using hu
      exact hne
    simp only [rescalar]
    cases hr : Number.read? text with
    | none =>
      refine .text hu hne (fun _ m hm => ?_) nofun
      rw [Number.read?_eq_some_iff.mpr hm] at hr
      cases hr
    | some m => exact .number hn (Number.read?_eq_some_iff.mp hr)
  | bool b =>
    have hb : (bool b).scalarText ≠ some text := by
      rw [hu]
      simpa using hne
    simp only [rescalar]
    split
    · next h => exact .bool hb (by simp [scalarText, h])
    · next ht =>
      split
      · next h => exact .bool hb (by simp [scalarText, h])
      · next hf => exact .text hu hne nofun fun _ => ⟨ht, hf⟩
  | null => exact .text hu hne nofun nofun
  | text s => exact .text hu hne nofun nofun
  | array xs => cases hu
  | map es => cases hu

theorem overwrites_of_overwrite {text : String} {u u' : Tree} {changed : Bool}
    (h : u.overwrite text = .ok (u', changed)) : u.Overwrites text u' := by
  rcases overwrite_cases h with ⟨hu, rfl, -⟩ | ⟨current, hu, hne, rfl, -⟩
  · exact .same hu
  · exact overwrites_rescalar hu hne

theorem not_respelled_of_scalarText {text : String} {u : Tree} (h : u.scalarText = some text) :
    ¬ u.Respelled text := by
  rintro ⟨n, rfl, hn, -⟩
  exact hn (by simpa [scalarText] using h)

theorem overwrite_flag {text : String} {u u' : Tree} {changed : Bool}
    (h : u.overwrite text = .ok (u', changed)) :
    (¬ u.Respelled text → (changed = true ↔ u' ≠ u)) ∧
      (u.Respelled text → changed = true ∧ u' = u) := by
  rcases overwrite_cases h with ⟨hu, rfl, rfl⟩ | ⟨current, hu, hne, rfl, rfl⟩
  · exact ⟨by simp, fun hr => absurd hr (not_respelled_of_scalarText hu)⟩
  · rw [← rescalar_eq_self_iff hu hne]
    exact ⟨by simp, fun hr => ⟨rfl, hr⟩⟩

theorem settled_of_overwrite {text : String} {u u' : Tree} {changed : Bool}
    (h : u.overwrite text = .ok (u', changed)) : u'.Settled text := by
  rcases overwrite_cases h with ⟨hu, rfl, -⟩ | ⟨current, -, -, rfl, -⟩
  · exact .inl hu
  · exact settled_rescalar u text

theorem overwrite_of_settled {text : String} {u : Tree} (h : u.Settled text) :
    ∃ again, u.overwrite text = .ok (u, again) ∧ (again = false ↔ ¬ u.Respelled text) := by
  rcases h with hu | ⟨n, rfl, hr⟩
  · exact ⟨false, by simp [overwrite, hu], by simpa using not_respelled_of_scalarText hu⟩
  · by_cases hn : n.render = text
    · have hu : (number n).scalarText = some text := by simp [scalarText, hn]
      exact ⟨false, by simp [overwrite, hu], by simpa using not_respelled_of_scalarText hu⟩
    · refine ⟨true, by simp [overwrite, scalarText, rescalar, hn, hr], ?_⟩
      simpa using ⟨n, rfl, hn, hr⟩

end Tree

end FieldPatch

import FieldPatch.Proofs.Except
import FieldPatch.Selector.Stream

/-! Writing to the documents of a stream: each of them is written as if it were alone, and the
write fails if that fails for a reason other than that a document has nothing at the place. -/

namespace FieldPatch.Selector

variable {text : String} {e : Expression} {docs docs' : List Tree} {changed : Bool}

/-- What a write makes of a document. One where the selector leads nowhere stays as it is. -/
def written (text : String) (e : Expression) (t : Tree) : Tree :=
  match set text e t with
  | .ok (t', _) => t'
  | .error _ => t

/-- No document stops a write to all of them. -/
def Writable (text : String) (e : Expression) (docs : List Tree) : Prop :=
  ∀ t ∈ docs, ∀ err, set text e t = .error err → err.isUnresolved = true

theorem setEach_of_writable (h : Writable text e docs) :
    setEach text e docs =
      .ok (docs.map (written text e), docs.map fun t => (set text e t).map Prod.snd) := by
  induction docs with
  | nil => rfl
  | cons t ts ih =>
    have hts := ih fun u hu => h u (List.mem_cons_of_mem t hu)
    cases hs : set text e t with
    | ok r =>
      simp only [setEach, hs, hts, List.map_cons, written]
      rfl
    | error err =>
      simp only [setEach, hs, h t List.mem_cons_self err hs, hts, List.map_cons, written]
      rfl

theorem writable_of_setEach {r : List Tree × List (Except Error Bool)}
    (h : setEach text e docs = .ok r) : Writable text e docs := by
  induction docs generalizing r with
  | nil => exact fun t ht => nomatch ht
  | cons t ts ih =>
    rw [Writable, List.forall_mem_cons]
    rw [setEach] at h
    cases hs : set text e t with
    | ok _ =>
      rw [hs] at h
      obtain ⟨_, hrest, -⟩ := ok_of_bind h
      exact ⟨fun _ herr => (nomatch herr), ih hrest⟩
    | error fault =>
      rw [hs] at h
      cases hu : fault.isUnresolved with
      | false => simp [hu] at h
      | true =>
        simp only [hu] at h
        obtain ⟨_, hrest, -⟩ := ok_of_bind h
        exact ⟨fun _ herr => Except.error.inj herr ▸ hu, ih hrest⟩

theorem exists_summary_iff {outcomes : List (Except Error Bool)} :
    (∃ changed, summary outcomes = .ok changed) ↔ ∃ c, .ok c ∈ outcomes := by
  induction outcomes with
  | nil => simp [summary]
  | cons outcome rest ih =>
    cases outcome with
    | ok c =>
      refine iff_of_true ?_ ⟨c, List.mem_cons_self⟩
      cases hr : summary rest with
      | ok more => exact ⟨c || more, by simp only [summary, hr]⟩
      | error _ => exact ⟨c, by simp only [summary, hr]⟩
    | error err =>
      simp only [List.mem_cons, reduceCtorEq, false_or, ← ih]
      cases hr : summary rest with
      | ok more => simp only [summary, hr]
      | error _ => simp only [summary, hr, reduceCtorEq]

theorem summary_eq_error {outcomes : List (Except Error Bool)} {fault : StreamFault}
    (h : summary outcomes = .error fault) :
    outcomes = [] ∧ fault = .noDocuments ∨
      ∃ err rest, outcomes = .error err :: rest ∧ fault = .unresolved err := by
  cases outcomes with
  | nil =>
    cases h
    exact .inl ⟨rfl, rfl⟩
  | cons outcome rest =>
    cases outcome with
    | ok c => cases hr : summary rest <;> simp [summary, hr] at h
    | error err =>
      cases hr : summary rest with
      | ok more => simp [summary, hr] at h
      | error _ =>
        simp only [summary, hr] at h
        cases h
        exact .inr ⟨err, rest, rfl, rfl⟩

theorem summary_flag {outcomes : List (Except Error Bool)} (h : summary outcomes = .ok changed) :
    changed = true ↔ .ok true ∈ outcomes := by
  induction outcomes generalizing changed with
  | nil => cases h
  | cons outcome rest ih =>
    cases outcome with
    | ok c =>
      cases hr : summary rest with
      | ok more =>
        simp only [summary, hr] at h
        cases h
        simp [ih hr, @eq_comm Bool true]
      | error _ =>
        have hrest : .ok true ∉ rest := by
          intro hm
          obtain ⟨more, hm⟩ := exists_summary_iff.mpr ⟨true, hm⟩
          rw [hr] at hm
          cases hm
        simp only [summary, hr] at h
        cases h
        simp [hrest, @eq_comm Bool true]
    | error err =>
      cases hr : summary rest with
      | ok more =>
        simp only [summary, hr] at h
        cases h
        simp [ih hr]
      | error _ => simp [summary, hr] at h

theorem ok_mem_outcomes_iff {c : Bool} :
    .ok c ∈ docs.map (fun t => (set text e t).map Prod.snd) ↔
      ∃ t ∈ docs, ∃ t', set text e t = .ok (t', c) := by
  rw [List.mem_map]
  refine exists_congr fun t => and_congr_right fun _ => ?_
  cases set text e t with
  | ok r => simp [Except.map, Prod.ext_iff]
  | error err => simp [Except.map]

/-- A write to all documents succeeds if it does in one of them at least, and the others have
nothing at the place. It reports a change if there is one in any document. -/
theorem setAll_eq_ok_iff : setAll text e docs = .ok (docs', changed) ↔
    Writable text e docs ∧ (∃ t ∈ docs, ∃ r, set text e t = .ok r) ∧
      docs' = docs.map (written text e) ∧
      (changed = true ↔ ∃ t ∈ docs, ∃ t', set text e t = .ok (t', true)) := by
  have hsome : (∃ c, .ok c ∈ docs.map fun t => (set text e t).map Prod.snd) ↔
      ∃ t ∈ docs, ∃ r, set text e t = .ok r := by
    simp only [ok_mem_outcomes_iff]
    constructor
    · rintro ⟨c, t, ht, t', hs⟩
      exact ⟨t, ht, (t', c), hs⟩
    · rintro ⟨t, ht, ⟨t', c⟩, hs⟩
      exact ⟨c, t, ht, t', hs⟩
  constructor
  · intro h
    obtain ⟨⟨ts, outcomes⟩, heach, h⟩ := ok_of_bind h
    have heach := mapError_eq_ok_iff.mp heach
    have hw := writable_of_setEach heach
    rw [setEach_of_writable hw] at heach
    cases heach
    obtain ⟨c, hc, h⟩ := ok_of_bind h
    cases h
    exact ⟨hw, hsome.mp (exists_summary_iff.mp ⟨_, hc⟩), rfl, (summary_flag hc).trans ok_mem_outcomes_iff⟩
  · rintro ⟨hw, hok, rfl, hflag⟩
    obtain ⟨c, hc⟩ := exists_summary_iff.mpr (hsome.mpr hok)
    obtain rfl : c = changed :=
      Bool.eq_iff_iff.mpr ((summary_flag hc).trans (ok_mem_outcomes_iff.trans hflag.symm))
    rw [setAll, setEach_of_writable hw]
    show (summary _ >>= fun c => _) = _
    rw [hc]
    rfl

/-- Where nothing stops it, a write to all documents fails for want of a place only, and says why
the first of them could not be written. -/
theorem setAll_eq_error {fault : StreamFault} (hw : Writable text e docs)
    (h : setAll text e docs = .error fault) :
    docs = [] ∧ fault = .noDocuments ∨
      ∃ t ts err, docs = t :: ts ∧ set text e t = .error err ∧ fault = .unresolved err := by
  rw [setAll, setEach_of_writable hw] at h
  rcases error_of_bind h with h | ⟨_, hr, h⟩
  · cases h
  · cases hr
    rcases error_of_bind h with h | ⟨_, _, h⟩
    · rcases summary_eq_error h with ⟨hnil, rfl⟩ | ⟨err, rest, hcons, rfl⟩
      · exact .inl ⟨List.map_eq_nil_iff.mp hnil, rfl⟩
      · obtain ⟨t, ts, rfl, ht, -⟩ := List.map_eq_cons_iff.mp hcons
        cases hs : set text e t with
        | ok r =>
          rw [hs] at ht
          cases ht
        | error err' =>
          rw [hs] at ht
          obtain rfl : err' = err := Except.error.inj ht
          exact .inr ⟨t, ts, err', rfl, hs, rfl⟩
    · cases h

/-- What is found first is what the selector leads to in one of the documents. -/
theorem exists_of_findFirst {node : Tree} (h : findFirst e docs = .ok node) :
    ∃ t ∈ docs, evaluate t e = .ok node := by
  induction docs with
  | nil => cases h
  | cons t ts ih =>
    rw [findFirst] at h
    cases ht : evaluate t e with
    | ok found =>
      rw [ht] at h
      cases h
      exact ⟨t, List.mem_cons_self, ht⟩
    | error err =>
      simp only [ht] at h
      split at h
      · cases h
      · cases hts : findFirst e ts with
        | ok found =>
          rw [hts] at h
          cases h
          obtain ⟨u, hu, he⟩ := ih hts
          exact ⟨u, List.mem_cons_of_mem t hu, he⟩
        | error fault =>
          rw [hts] at h
          cases fault <;> cases h

end FieldPatch.Selector

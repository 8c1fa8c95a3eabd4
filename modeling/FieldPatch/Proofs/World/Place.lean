import FieldPatch.Proofs.Except
import FieldPatch.Proofs.Path.Parts
import FieldPatch.World.Basic

/-! The places that paths lead to. What does not lead up ends below the place it starts from. -/

namespace FieldPatch

namespace Files

variable {files : Files} {base directory : List String}

/-- Where one stretch of a path leads. -/
def advance (files : Files) (base : List String) (s : List Char) :
    Except SystemFault (List String) :=
  match files.entry? base with
  | none => .error .noSuchFile
  | some (.file ..) => .error .notADirectory
  | some .directory =>
    if s == [] || s == ['.'] then .ok base
    else if s == ['.', '.'] then .ok base.dropLast
    else if (files.entry? (base ++ [String.ofList s])).isNone then .error .noSuchFile
    else .ok (base ++ [String.ofList s])

theorem follow_cons (files : Files) (base : List String) (s : List Char)
    (more : List (List Char)) :
    files.follow base (s :: more) = files.advance base s >>= fun next => files.follow next more := by
  simp only [follow, advance]
  cases files.entry? base with
  | none => rfl
  | some e =>
    cases e with
    | file content executable => rfl
    | directory =>
      dsimp only
      split
      · rfl
      · split
        · rfl
        · split <;> rfl

theorem follow_append (ss ts : List (List Char)) (files : Files) (base : List String) :
    files.follow base (ss ++ ts) = files.follow base ss >>= fun place => files.follow place ts := by
  induction ss generalizing base with
  | nil => rfl
  | cons s ss ih =>
    rw [List.cons_append, follow_cons, follow_cons]
    cases files.advance base s with
    | error fault => rfl
    | ok next => exact ih next

theorem entry?_of_advance {s : List Char} {next : List String}
    (h : files.advance base s = .ok next) : files.entry? base = some .directory := by
  unfold advance at h
  split at h
  · cases h
  · cases h
  · next hd => exact hd

theorem prefix_of_advance {s : List Char} {next : List String} (hs : s ≠ ['.', '.'])
    (h : files.advance base s = .ok next) : base <+: next := by
  simp only [advance, entry?_of_advance h, beq_eq_false_iff_ne.mpr hs] at h
  split at h
  · cases h
    exact List.prefix_refl base
  · rw [if_neg (by simp)] at h
    split at h
    · cases h
    · cases h
      exact List.prefix_append base _

theorem prefix_of_follow {ss : List (List Char)} {place : List String} (hs : ['.', '.'] ∉ ss)
    (h : files.follow base ss = .ok place) : base <+: place := by
  induction ss generalizing base with
  | nil =>
    obtain rfl : base = place := Except.ok.inj h
    exact List.prefix_refl base
  | cons s ss ih =>
    simp only [List.mem_cons, not_or] at hs
    rw [follow_cons] at h
    obtain ⟨next, hn, hrest⟩ := ok_of_bind h
    exact (prefix_of_advance (Ne.symm hs.1) hn).trans (ih hs.2 hrest)

theorem locate_eq_follow {path : String} (h : path ≠ "") (files : Files) (directory : List String) :
    files.locate directory path =
      files.follow (if Path.isAbsolute path then [] else directory) (Path.split path.toList) := by
  have hempty : path.isEmpty = false := by simpa using h
  simp only [locate, hempty, Bool.false_eq_true, if_false]
  split <;> rfl

/-- A joined path leads below the place of its directory, if what it is joined to does not lead
out of there. -/
theorem locate_join {path name : String} {place : List String} (hp : path ≠ "")
    (hn : ¬ Path.Escapes name) (h : files.locate directory (Path.join path name) = .ok place) :
    ∃ top, files.locate directory path = .ok top ∧ top <+: place := by
  have habs : Path.isAbsolute name = false := by simpa using fun h => hn (.inl h)
  obtain ⟨b, hb, hj, hdir⟩ := Path.split_join hp habs
  have hne : Path.join path name ≠ "" := Path.join_ne_empty hp habs
  have hstart : Path.isAbsolute (Path.join path name) = Path.isAbsolute path :=
    Path.isAbsolute_join hp habs
  rw [locate_eq_follow hne, hj, follow_append, hstart] at h
  obtain ⟨top, htop, h⟩ := ok_of_bind h
  refine ⟨top, ?_, prefix_of_follow (fun hm => hn (.inr hm)) h⟩
  rw [locate_eq_follow hp]
  rcases hdir with ⟨hdir, -⟩ | hdir
  · rw [hdir, htop]
  · -- the last stretch of the directory is empty, and stays where there is a directory
    obtain ⟨s, more, hs⟩ := List.exists_cons_of_ne_nil (Path.split_ne_nil name.toList)
    rw [hs, follow_cons] at h
    obtain ⟨next, hnext, -⟩ := ok_of_bind h
    rw [hdir, follow_append, htop, ok_bind]
    simp [follow, entry?_of_advance hnext]

end Files

namespace World

variable {w : World} {path : String}

theorem entryAt_eq_ok_iff {e : Entry} : w.entryAt path = .ok e ↔
    ∃ place, w.files.locate w.directory path = .ok place ∧ w.files.entry? place = some e := by
  constructor
  · intro h
    obtain ⟨place, hplace, h⟩ := ok_of_bind h
    cases he : w.files.entry? place with
    | none => simp only [he] at h; cases h
    | some found =>
      simp only [he] at h
      cases h
      exact ⟨place, hplace, he⟩
  · rintro ⟨place, hplace, he⟩
    simp only [entryAt, hplace, ok_bind, he]
    rfl

theorem exists_place_of_hasFile (h : w.hasFile path = true) :
    ∃ place content executable, w.files.locate w.directory path = .ok place ∧
      w.files.entry? place = some (.file content executable) := by
  unfold hasFile at h
  split at h
  · next content executable he =>
    obtain ⟨place, hplace, hentry⟩ := entryAt_eq_ok_iff.mp he
    exact ⟨place, content, executable, hplace, hentry⟩
  · cases h

end World

end FieldPatch

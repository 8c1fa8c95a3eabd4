import FieldPatch.Proofs.World.Place

/-! Writing a file. All paths lead where they did before, and only the written place has another
content. -/

namespace FieldPatch

namespace Files

variable {files : Files} {place other : List String} {old content : List UInt8} {executable : Bool}

/-- What writing to a place makes of an entry. -/
def rewritten (place : List String) (content : List UInt8) (other : List String) (e : Entry) :
    Entry :=
  if other = place then .file content false else e

theorem write_eq_map (files : Files) (place : List String) (content : List UInt8) :
    files.write place content = files.map fun p => (p.1, rewritten place content p.1 p.2) := by
  refine List.map_congr_left fun p _ => ?_
  obtain ⟨names, e⟩ := p
  simp only [rewritten]
  split <;> rfl

theorem lookup_write (files : Files) (place other : List String) (content : List UInt8) :
    (files.write place content).lookup other =
      (files.lookup other).map (rewritten place content other) := by
  rw [write_eq_map]
  induction files with
  | nil => rfl
  | cons head rest ih =>
    obtain ⟨names, e⟩ := head
    rw [List.map_cons, List.lookup_cons, List.lookup_cons, ih]
    by_cases hn : other = names
    · simp [hn]
    · simp [beq_eq_false_iff_ne.mpr hn]

theorem entry?_write_of_ne (h : other ≠ place) :
    Files.entry? (files.write place content) other = files.entry? other := by
  have hkeys : (files.write place content).any (other.isPrefixOf ·.1) =
      files.any (other.isPrefixOf ·.1) := by
    rw [write_eq_map, List.any_map]
    rfl
  simp only [lookup_write, entry?, hkeys]
  cases files.lookup other with
  | none => rfl
  | some e => simp [rewritten, h]

theorem lookup_of_entry?_eq_file (h : files.entry? place = some (.file old executable)) :
    files.lookup place = some (.file old executable) := by
  unfold entry? at h
  split at h
  · next e he => rw [he, h]
  · split at h <;> simp at h

theorem entry?_write_self (h : files.entry? place = some (.file old executable)) :
    Files.entry? (files.write place content) place = some (.file content false) := by
  simp [lookup_write, entry?, lookup_of_entry?_eq_file h, rewritten]

theorem isNone_entry?_write (h : files.entry? place = some (.file old executable)) :
    (Files.entry? (files.write place content) other).isNone = (files.entry? other).isNone := by
  by_cases ho : other = place
  · rw [ho, entry?_write_self h, h]
    rfl
  · rw [entry?_write_of_ne ho]

theorem advance_write (h : files.entry? place = some (.file old executable)) (s : List Char) :
    (files.write place content).advance other s = files.advance other s := by
  by_cases ho : other = place
  · simp only [advance, ho, entry?_write_self h, h]
  · simp only [advance, entry?_write_of_ne ho, isNone_entry?_write h]

theorem follow_write (h : files.entry? place = some (.file old executable))
    (ss : List (List Char)) :
    (files.write place content).follow other ss = files.follow other ss := by
  induction ss generalizing other with
  | nil => rfl
  | cons s ss ih =>
    rw [follow_cons, follow_cons, advance_write h]
    cases files.advance other s with
    | error fault => rfl
    | ok next => exact ih

theorem locate_write (h : files.entry? place = some (.file old executable))
    (directory : List String) (path : String) :
    (files.write place content).locate directory path = files.locate directory path := by
  simp only [locate, follow_write h]

end Files

namespace World

variable {w : World} {path text : String} {place : List String} {bytes content : List UInt8}

theorem readBytes_eq_ok_iff : w.readBytes path = .ok bytes ↔
    ∃ place executable, w.files.locate w.directory path = .ok place ∧
      w.files.entry? place = some (.file bytes executable) := by
  constructor
  · intro h
    obtain ⟨e, he, h⟩ := ok_of_bind h
    obtain ⟨place, hp, hf⟩ := entryAt_eq_ok_iff.mp he
    cases e with
    | file content executable =>
      cases h
      exact ⟨place, executable, hp, hf⟩
    | directory => cases h
  · rintro ⟨place, executable, hp, hf⟩
    rw [readBytes, entryAt_eq_ok_iff.mpr ⟨place, hp, hf⟩]
    rfl

/-- A file of the world has these bytes among `files`, and nothing else differs there. -/
structure Replaces (w : World) (path : String) (bytes : List UInt8) (files : Files) : Prop where
  content : { w with files }.readBytes path = .ok bytes
  others : ∀ place, w.files.locate w.directory path ≠ .ok place →
    files.entry? place = w.files.entry? place

theorem replaces_write {old : List UInt8} {executable : Bool}
    (hp : w.files.locate w.directory path = .ok place)
    (he : w.files.entry? place = some (.file old executable)) (content : List UInt8) :
    w.Replaces path content (w.files.write place content) where
  content := readBytes_eq_ok_iff.mpr
    ⟨place, false, (Files.locate_write he w.directory path).trans hp, Files.entry?_write_self he⟩
  others _ ho := Files.entry?_write_of_ne fun h => ho (h ▸ hp)

theorem readBytes_of_readText (h : w.readText path = .ok text) :
    ∃ bytes, w.readBytes path = .ok bytes := by
  obtain ⟨bytes, hb, -⟩ := ok_of_bind h
  exact ⟨bytes, hb⟩

end World

end FieldPatch

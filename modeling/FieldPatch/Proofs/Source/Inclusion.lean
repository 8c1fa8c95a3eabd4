import FieldPatch.Proofs.World.Place
import FieldPatch.Source.Evaluate
import Mathlib.Data.List.Find

/-! Included files lie below the roots. An app or a source that could lead out of a root is
refused before any file is looked up. -/

namespace FieldPatch

theorem Evaluation.of_ok_bind {α β : Type} (a : α) (f : α → Evaluation β) :
    Evaluation.of (.ok a) >>= f = f a := rfl

/-- Where an included file is looked for below one root. -/
def includedPath (root app source : String) : String :=
  Path.join (if app.isEmpty then root else Path.join root app) source

section

variable {root app source : String}

theorem parts_includedPath (happ : ¬ Path.Escapes app) (hsource : ¬ Path.Escapes source) :
    ∃ below, Path.parts (includedPath root app source) = Path.parts root ++ below ∧
      ∀ p ∈ below, p.Inner := by
  unfold includedPath
  split
  · exact Path.parts_join hsource
  · obtain ⟨inApp, ha, hina⟩ := @Path.parts_join root app happ
    obtain ⟨inSource, hs, hins⟩ := @Path.parts_join (Path.join root app) source hsource
    refine ⟨inApp ++ inSource, by rw [hs, ha, List.append_assoc], ?_⟩
    intro p hp
    rcases List.mem_append.mp hp with hp | hp
    · exact hina p hp
    · exact hins p hp

theorem locate_includedPath {files : Files} {directory place : List String} (hr : root ≠ "")
    (happ : ¬ Path.Escapes app) (hsource : ¬ Path.Escapes source)
    (h : files.locate directory (includedPath root app source) = .ok place) :
    ∃ top, files.locate directory root = .ok top ∧ top <+: place := by
  unfold includedPath at h
  split at h
  · exact Files.locate_join hr hsource h
  · have habs : Path.isAbsolute app = false := by simpa using fun h => happ (.inl h)
    obtain ⟨mid, hmid, hm⟩ := Files.locate_join (Path.join_ne_empty hr habs) hsource h
    obtain ⟨top, htop, ht⟩ := Files.locate_join hr happ hmid
    exact ⟨top, htop, ht.trans hm⟩

end

/-- `root` is the first of the roots that have the file, and `path` is where it has it: below
the root, by its parts and by the place that it names. -/
structure FoundBelow (w : World) (roots : List String) (app source root path : String) : Prop where
  path_eq : path = includedPath root app source
  hasFile : w.hasFile path = true
  first : ∃ before after, roots = before ++ root :: after ∧
    ∀ earlier ∈ before, w.hasFile (includedPath earlier app source) = false
  parts : ∃ below, Path.parts path = Path.parts root ++ below ∧ ∀ p ∈ below, p.Inner
  place : root ≠ "" → ∃ top place, w.files.locate w.directory root = .ok top ∧
    w.files.locate w.directory path = .ok place ∧ top <+: place

variable {w : World} {ctx : Context} {app source path : String}

/-- The first path that has a file, with the root that it belongs to. -/
theorem find?_map_hasFile_eq_some_iff {roots : List String} {pathOf : String → String} :
    (roots.map pathOf).find? w.hasFile = some path ↔
      ∃ root, path = pathOf root ∧ w.hasFile path = true ∧
        ∃ before after, roots = before ++ root :: after ∧
          ∀ earlier ∈ before, w.hasFile (pathOf earlier) = false := by
  rw [List.find?_map, Option.map_eq_some_iff]
  simp only [List.find?_eq_some_iff_append, Function.comp_apply]
  constructor
  · rintro ⟨root, ⟨hf, before, after, hroots, hbefore⟩, rfl⟩
    exact ⟨root, rfl, hf, before, after, hroots, fun r hr => by simpa using hbefore r hr⟩
  · rintro ⟨root, rfl, hf, before, after, hroots, hbefore⟩
    exact ⟨root, ⟨hf, before, after, hroots, fun r hr => by simpa using hbefore r hr⟩, rfl⟩

theorem find?_candidates_eq_some_iff :
    (candidates ctx app source).find? w.hasFile = some path ↔
      ∃ root, path = includedPath root app source ∧ w.hasFile path = true ∧
        ∃ before after, ctx.fileRoots = before ++ root :: after ∧
          ∀ earlier ∈ before, w.hasFile (includedPath earlier app source) = false :=
  find?_map_hasFile_eq_some_iff

theorem foundBelow_iff {root : String} (happ : ¬ Path.Escapes app) (hsource : ¬ Path.Escapes source)
    {roots : List String} :
    FoundBelow w roots app source root path ↔
      path = includedPath root app source ∧ w.hasFile path = true ∧
        ∃ before after, roots = before ++ root :: after ∧
          ∀ earlier ∈ before, w.hasFile (includedPath earlier app source) = false := by
  constructor
  · exact fun h => ⟨h.path_eq, h.hasFile, h.first⟩
  · rintro ⟨rfl, hf, hfirst⟩
    refine ⟨rfl, hf, hfirst, parts_includedPath happ hsource, fun hr => ?_⟩
    obtain ⟨place, _, _, hp, -⟩ := World.exists_place_of_hasFile hf
    obtain ⟨top, htop, ht⟩ := locate_includedPath hr happ hsource hp
    exact ⟨top, place, htop, hp, ht⟩

theorem findFile_of_app_escapes (h : Path.Escapes app) :
    findFile w ctx app source = .error (.evaluation (.outsideRoot "app" app)) := by
  simp [findFile, Path.staysBelow_eq_false_iff.mpr h]

theorem findFile_of_source_escapes (happ : ¬ Path.Escapes app) (h : Path.Escapes source) :
    findFile w ctx app source = .error (.evaluation (.outsideRoot "source" source)) := by
  simp [findFile, Path.staysBelow_iff.mpr happ, Path.staysBelow_eq_false_iff.mpr h]

theorem findFile_eq_ok_iff :
    findFile w ctx app source = .ok path ↔ ¬ Path.Escapes app ∧ ¬ Path.Escapes source ∧
      ∃ root, FoundBelow w ctx.fileRoots app source root path := by
  by_cases happ : Path.Escapes app
  · simp [findFile_of_app_escapes happ, happ]
  · by_cases hsource : Path.Escapes source
    · simp [findFile_of_source_escapes happ hsource, hsource]
    · simp only [happ, hsource, not_false_eq_true, true_and, foundBelow_iff happ hsource]
      rw [← find?_candidates_eq_some_iff]
      simp only [findFile, Path.staysBelow_iff.mpr happ, Path.staysBelow_iff.mpr hsource,
        Bool.not_true, Bool.false_eq_true, if_false]
      cases (candidates ctx app source).find? w.hasFile <;> simp

section

variable {evaluate : Evaluator} {app : Option String} {edits : List (Edit Source)}

theorem includeWith_of_findFile_error {err : Error}
    (h : findFile w ctx (appName ctx app) source = .error err) :
    includeWith evaluate w ctx app source edits = throw err := by
  simp only [includeWith, h]
  rfl

/-- An inclusion asks only whether the candidates are there, and reads only the one that it
finds. -/
theorem includeWith_congr {w' : World}
    (hlook : ∀ path ∈ candidates ctx (appName ctx app) source, w'.hasFile path = w.hasFile path)
    (hread : ∀ path, findFile w ctx (appName ctx app) source = .ok path →
      w'.readBytes path = w.readBytes path) :
    includeWith evaluate w' ctx app source edits = includeWith evaluate w ctx app source edits := by
  have hfind : findFile w' ctx (appName ctx app) source =
      findFile w ctx (appName ctx app) source := by
    unfold findFile
    rw [List.find?_congr hlook]
  cases hp : findFile w ctx (appName ctx app) source with
  | error err =>
    rw [includeWith_of_findFile_error hp, includeWith_of_findFile_error (hfind.trans hp)]
  | ok path => simp only [includeWith, hfind, hp, Evaluation.of_ok_bind, hread path hp]

theorem not_escapes_appName (h : app.getD "" = "") : ¬ Path.Escapes (appName ctx app) := by
  have hf : app.filter (· ≠ "") = none := by
    cases app with
    | none => rfl
    | some given =>
      obtain rfl : given = "" := h
      rfl
  simp only [appName, hf]
  exact Path.not_escapes_directoryName? ctx.file

end

/-- Inclusions stay inside the roots. The file that is read is the one that the first root which
has it has below itself; nothing else is read. An app or a source that is absolute or has a stretch
`..` is refused, whatever files there are, and an app that comes from the current file never
is. -/
theorem include_stays_below_roots (evaluate : Evaluator) (w : World) (ctx : Context)
    (app : Option String) (source : String) (edits : List (Edit Source)) :
    let name := appName ctx app
    (∀ path, findFile w ctx name source = .ok path ↔
      ¬ Path.Escapes name ∧ ¬ Path.Escapes source ∧
        ∃ root, FoundBelow w ctx.fileRoots name source root path) ∧
    (∀ w' : World, (∀ path ∈ candidates ctx name source, w'.hasFile path = w.hasFile path) →
      (∀ path, findFile w ctx name source = .ok path → w'.readBytes path = w.readBytes path) →
      includeWith evaluate w' ctx app source edits =
        includeWith evaluate w ctx app source edits) ∧
    (Path.Escapes name → ∀ w' : World, includeWith evaluate w' ctx app source edits =
      throw (.evaluation (.outsideRoot "app" name))) ∧
    (¬ Path.Escapes name → Path.Escapes source → ∀ w' : World,
      includeWith evaluate w' ctx app source edits =
        throw (.evaluation (.outsideRoot "source" source))) ∧
    (app.getD "" = "" → ¬ Path.Escapes name) :=
  ⟨fun _ => findFile_eq_ok_iff, fun _ => includeWith_congr,
    fun h _ => includeWith_of_findFile_error (findFile_of_app_escapes h),
    fun h hs _ => includeWith_of_findFile_error (findFile_of_source_escapes h hs),
    not_escapes_appName⟩

end FieldPatch

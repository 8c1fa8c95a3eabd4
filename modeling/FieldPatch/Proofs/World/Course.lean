import FieldPatch.Proofs.World.Place

/-! One path from two directories. A path that can be followed from both leads to one place exactly
if the directories agree above what it goes up. A program is started from the directory that it
runs in. -/

namespace FieldPatch

/-- A way through directories: so many of them up, and down by these names. -/
structure Course where
  up : Nat
  down : List String

namespace Course

/-- Where the way leads from a place. -/
def placeFrom (c : Course) (base : List String) : List String :=
  base.take (base.length - c.up) ++ c.down

/-- The way with one more stretch. Going up takes back the last name, if there is one. -/
def step (c : Course) (s : List Char) : Course :=
  if s == [] || s == ['.'] then c
  else if s == ['.', '.'] then
    if c.down = [] then ⟨c.up + 1, []⟩ else ⟨c.up, c.down.dropLast⟩
  else ⟨c.up, c.down ++ [String.ofList s]⟩

def ofPath (path : String) : Course := (Path.split path.toList).foldl step ⟨0, []⟩

theorem placeFrom_inj (c : Course) (a b : List String) :
    c.placeFrom a = c.placeFrom b ↔ a.take (a.length - c.up) = b.take (b.length - c.up) := by
  simp only [placeFrom, List.append_left_inj]

theorem up_step {s : List Char} (hs : s ≠ ['.', '.']) (c : Course) : (c.step s).up = c.up := by
  simp only [step, beq_eq_false_iff_ne.mpr hs, Bool.false_eq_true, if_false]
  split <;> rfl

theorem up_foldl_step {ss : List (List Char)} (hs : ['.', '.'] ∉ ss) (c : Course) :
    (ss.foldl step c).up = c.up := by
  induction ss generalizing c with
  | nil => rfl
  | cons s ss ih =>
    simp only [List.mem_cons, not_or] at hs
    rw [List.foldl_cons, ih hs.2, up_step (Ne.symm hs.1)]

theorem dropLast_placeFrom (c : Course) (base : List String) :
    (c.placeFrom base).dropLast = (c.step ['.', '.']).placeFrom base := by
  have hstep : c.step ['.', '.'] =
      if c.down = [] then ⟨c.up + 1, []⟩ else ⟨c.up, c.down.dropLast⟩ := rfl
  rw [hstep]
  by_cases hd : c.down = []
  · have hlen : min (base.length - c.up) base.length - 1 = base.length - (c.up + 1) := by omega
    simp only [placeFrom, hd, if_true, List.append_nil, List.dropLast_eq_take, List.length_take,
      List.take_take, hlen]
    congr 1
    omega
  · simp only [placeFrom, hd, if_false, List.dropLast_append_of_ne_nil hd]

end Course

namespace Files

variable {files : Files} {base directory : List String} {c : Course}

theorem eq_of_advance {s : List Char} {next : List String}
    (h : files.advance (c.placeFrom base) s = .ok next) : next = (c.step s).placeFrom base := by
  by_cases hup : s = ['.', '.']
  · subst hup
    rw [← Course.dropLast_placeFrom]
    simp only [advance, entry?_of_advance h] at h
    exact (Except.ok.inj h).symm
  · simp only [advance, entry?_of_advance h, beq_eq_false_iff_ne.mpr hup, Bool.false_eq_true,
      if_false] at h
    simp only [Course.step, beq_eq_false_iff_ne.mpr hup, Bool.false_eq_true, if_false]
    split at h
    · next hs =>
      rw [if_pos hs]
      exact (Except.ok.inj h).symm
    · next hs =>
      rw [if_neg hs]
      split at h
      · cases h
      · rw [← Except.ok.inj h, Course.placeFrom, Course.placeFrom, List.append_assoc]

theorem eq_of_follow {ss : List (List Char)} {place : List String}
    (h : files.follow (c.placeFrom base) ss = .ok place) :
    place = (ss.foldl Course.step c).placeFrom base := by
  induction ss generalizing c with
  | nil => exact (Except.ok.inj h).symm
  | cons s ss ih =>
    rw [follow_cons] at h
    obtain ⟨next, hnext, hrest⟩ := ok_of_bind h
    obtain rfl := eq_of_advance hnext
    exact ih hrest

theorem ne_empty_of_locate {path : String} {place : List String}
    (h : files.locate directory path = .ok place) : path ≠ "" := by
  rintro rfl
  cases h

theorem locate_of_absolute {path : String} (h : Path.isAbsolute path = true)
    (directory other : List String) : files.locate directory path = files.locate other path := by
  simp only [locate, h, if_true]

theorem eq_of_locate {path : String} {place : List String} (hr : Path.isAbsolute path = false)
    (h : files.locate directory path = .ok place) :
    place = (Course.ofPath path).placeFrom directory := by
  have hstart : directory = (⟨0, []⟩ : Course).placeFrom directory := by simp [Course.placeFrom]
  rw [locate_eq_follow (ne_empty_of_locate h), hr, if_neg nofun, hstart] at h
  exact eq_of_follow h

/-- Two directories between which a path makes no difference: it starts at the root, or goes up to
where they are below the same. -/
def SameStart (path : String) (a b : List String) : Prop :=
  Path.isAbsolute path = true ∨
    a.take (a.length - (Course.ofPath path).up) = b.take (b.length - (Course.ofPath path).up)

theorem sameStart_iff_of_not_escapes {path : String} (h : ¬ Path.Escapes path) (a b : List String) :
    SameStart path a b ↔ a = b := by
  obtain ⟨ha, hup⟩ := not_or.mp h
  have hzero : (Course.ofPath path).up = 0 := Course.up_foldl_step hup _
  simp [SameStart, ha, hzero]

theorem locate_eq_iff {path : String} {other place place' : List String}
    (h : files.locate directory path = .ok place) (h' : files.locate other path = .ok place') :
    place' = place ↔ SameStart path other directory := by
  cases ha : Path.isAbsolute path with
  | true =>
    rw [locate_of_absolute ha other directory, h] at h'
    exact iff_of_true (Except.ok.inj h').symm (.inl ha)
  | false =>
    rw [eq_of_locate ha h, eq_of_locate ha h', Course.placeFrom_inj]
    simp only [SameStart, ha, Bool.false_eq_true, false_or]

/-- A path without a slash behind a directory leads where it does from there. -/
theorem locate_slash_append {path name : String} (hp : path ≠ "") (hn : name ≠ "")
    (hs : Path.hasSlash name = false) {place : List String}
    (h : files.locate directory (path ++ "/" ++ name) = .ok place) :
    ∃ top, files.locate directory path = .ok top ∧ files.locate top name = .ok place := by
  have hlist : (path ++ "/" ++ name).toList = path.toList ++ '/' :: name.toList := by
    simp [String.toList_append]
  have hne : path ++ "/" ++ name ≠ "" := by simp [hp]
  have hstart : Path.isAbsolute (path ++ "/" ++ name) = Path.isAbsolute path := by
    obtain ⟨c, cs, hc⟩ := List.exists_cons_of_ne_nil (mt String.toList_eq_nil_iff.mp hp)
    rw [Bool.eq_iff_iff, Path.isAbsolute_iff, Path.isAbsolute_iff, hlist, hc]
    simp
  have hrelative : Path.isAbsolute name = false := by
    cases ha : Path.isAbsolute name with
    | false => rfl
    | true =>
      rw [Path.hasSlash_of_isAbsolute ha] at hs
      cases hs
  rw [locate_eq_follow hne, hstart, hlist, Path.split_append, follow_append] at h
  obtain ⟨top, htop, h⟩ := ok_of_bind h
  refine ⟨top, ?_, ?_⟩
  · rw [locate_eq_follow hp, htop]
  · rw [locate_eq_follow hn, hrelative, if_neg nofun, h]

end Files

namespace World

variable {w : World} {path called directory input : String} {arguments : List String}
  {settings environment : Entries String} {home place top : List String} {i : Invocation}
  {ending : Ending}

theorem firstOf_eq_ok_iff {α : Type} {f : String → Except SystemFault α} {fault : SystemFault}
    {paths : List String} {a : α} : firstOf f fault paths = .ok a ↔
      ∃ before path after, paths = before ++ path :: after ∧ f path = .ok a ∧
        ∀ p ∈ before, ∃ new, f p = .error new ∧ passesOver new = true := by
  induction paths generalizing fault with
  | nil => simp [firstOf]
  | cons p paths ih =>
    constructor
    · intro h
      cases hf : f p with
      | ok b =>
        simp only [firstOf, hf] at h
        exact ⟨[], p, paths, rfl, hf.trans h, List.forall_mem_nil _⟩
      | error new =>
        simp only [firstOf, hf] at h
        split at h
        · cases h
        · next hpass =>
          obtain ⟨before, path, after, rfl, ha, hbefore⟩ := ih.mp h
          have hp : ∃ new, f p = .error new ∧ passesOver new = true := ⟨new, hf, by simpa using hpass⟩
          exact ⟨p :: before, path, after, rfl, ha, List.forall_mem_cons.mpr ⟨hp, hbefore⟩⟩
    · rintro ⟨before, path, after, heq, ha, hbefore⟩
      cases before with
      | nil =>
        obtain ⟨rfl, -⟩ := List.cons.inj heq
        simp only [firstOf, ha]
      | cons q before =>
        obtain ⟨rfl, rfl⟩ := List.cons.inj heq
        obtain ⟨⟨new, hf, hpass⟩, hbefore⟩ := List.forall_mem_cons.mp hbefore
        simp only [firstOf, hf, hpass]
        exact ih.mpr ⟨before, path, after, rfl, ha, hbefore⟩

theorem programAt_eq_ok_iff {program : List UInt8} :
    w.programAt place = .ok program ↔ w.files.entry? place = some (.file program true) := by
  unfold programAt
  split <;> simp_all

theorem call_eq_ok_iff : w.call arguments environment home input path = .ok i ↔
    w.load i = .ok () ∧ i = ⟨path, i.program, arguments, environment, home, Utf8.encode input⟩ ∧
      ∃ place, w.files.locate home path = .ok place ∧
        w.files.entry? place = some (.file i.program true) := by
  constructor
  · intro h
    obtain ⟨place, hplace, h⟩ := ok_of_bind h
    obtain ⟨program, hprogram, h⟩ := ok_of_bind h
    obtain ⟨⟨⟩, hload, h⟩ := ok_of_bind h
    cases h
    exact ⟨hload, rfl, place, hplace, programAt_eq_ok_iff.mp hprogram⟩
  · rintro ⟨hload, hi, place, hplace, hfile⟩
    rw [call, hplace, ok_bind, programAt_eq_ok_iff.mpr hfile, ok_bind, ← hi]
    dsimp only
    rw [hload]
    rfl

/-- The path of a program is followed from `top` in a run in `home`. That is `home` itself if the
path has a slash, and else one of the directories where programs are looked for. -/
inductive FollowedFrom (w : World) (path : String) (environment : Entries String)
    (home : List String) : List String → Prop where
  | home (hp : Path.hasSlash path = true) : FollowedFrom w path environment home home
  | unnamed (hp : Path.hasSlash path = false) (hd : "" ∈ searched environment) :
      FollowedFrom w path environment home home
  | searched {d : String} {top : List String} (hp : Path.hasSlash path = false)
      (hd : d ∈ searched environment) (ht : w.files.locate home d = .ok top) :
      FollowedFrom w path environment home top

/-- A run by a path executes the file at `place`, as the program of `i`. It is the first under the
paths of the program. -/
structure Executes (w : World) (path : String) (arguments : List String) (settings : Entries String)
    (directory input : String) (home place : List String) (i : Invocation) : Prop where
  entered : w.enter directory = .ok home
  first : ∃ before after,
    programPaths path (w.environmentWith settings) = before ++ i.path :: after ∧
      ∀ p ∈ before, ∃ fault,
        w.call arguments (w.environmentWith settings) home input p = .error fault ∧
          passesOver fault = true
  located : w.files.locate home i.path = .ok place
  file : w.files.entry? place = some (.file i.program true)
  loaded : w.load i = .ok ()
  call : i = ⟨i.path, i.program, arguments, w.environmentWith settings, home, Utf8.encode input⟩

theorem executes_of_slash (hh : w.enter directory = .ok home) (hs : Path.hasSlash path = true)
    (hplace : w.files.locate home path = .ok place)
    (hfile : w.files.entry? place = some (.file i.program true)) (hload : w.load i = .ok ())
    (hi : i = ⟨path, i.program, arguments, w.environmentWith settings, home, Utf8.encode input⟩) :
    w.Executes path arguments settings directory input home place i := by
  have hpath : i.path = path := congrArg Invocation.path hi
  have hpaths : programPaths path (w.environmentWith settings) = [path] := by
    simp [programPaths, hs]
  exact ⟨hh, ⟨[], [], by rw [hpaths, hpath]; rfl, List.forall_mem_nil _⟩, hpath ▸ hplace, hfile,
    hload, hpath ▸ hi⟩

/-- A run that gets through is one of the program that is executed. -/
theorem run_eq_ok_iff : w.run path arguments settings directory input = .ok ending ↔
    refuses arguments settings directory = false ∧ ∃ home place i,
      w.Executes path arguments settings directory input home place i ∧ ending = w.perform i := by
  constructor
  · intro h
    unfold run at h
    split at h
    · cases h
    · next hn =>
      obtain ⟨home, hh, h⟩ := ok_of_bind h
      obtain ⟨i, hi, h⟩ := ok_of_bind h
      obtain ⟨before, called, after, hpaths, hcall, hbefore⟩ := firstOf_eq_ok_iff.mp hi
      obtain ⟨hload, heq, place, hplace, hfile⟩ := call_eq_ok_iff.mp hcall
      obtain rfl : called = i.path := (congrArg Invocation.path heq).symm
      exact ⟨by simpa using hn, home, place, i,
        ⟨hh, ⟨before, after, hpaths, hbefore⟩, hplace, hfile, hload, heq⟩, (Except.ok.inj h).symm⟩
  · rintro ⟨hn, home, place, i, h, rfl⟩
    obtain ⟨before, after, hpaths, hbefore⟩ := h.first
    have hcall := call_eq_ok_iff.mpr ⟨h.loaded, h.call, place, h.located, h.file⟩
    have hi : firstOf (w.call arguments (w.environmentWith settings) home input) .noSuchFile
        (programPaths path (w.environmentWith settings)) = .ok i :=
      firstOf_eq_ok_iff.mpr ⟨before, i.path, after, hpaths, hcall, hbefore⟩
    simp only [run, hn, Bool.false_eq_true, if_false, h.entered, ok_bind, hi]
    rfl

theorem Executes.followed (h : w.Executes path arguments settings directory input home place i) :
    ∃ top, w.FollowedFrom path (w.environmentWith settings) home top ∧
      w.files.locate top path = .ok place := by
  obtain ⟨before, after, hpaths, -⟩ := h.first
  have hmem : i.path ∈ programPaths path (w.environmentWith settings) := by simp [hpaths]
  have hlocated := h.located
  unfold programPaths at hmem
  split at hmem
  · next hp =>
    rw [List.mem_singleton.mp hmem] at hlocated
    have hne := Files.ne_empty_of_locate hlocated
    exact ⟨home, .home (by simpa [hne] using hp), hlocated⟩
  · next hp =>
    obtain ⟨hs, hne⟩ : Path.hasSlash path = false ∧ path ≠ "" := by simpa using hp
    obtain ⟨d, hd, hpath⟩ := List.mem_map.mp hmem
    rw [← hpath] at hlocated
    by_cases hempty : d = ""
    · subst hempty
      exact ⟨home, .unnamed hs hd, hlocated⟩
    · rw [if_neg (by simpa using hempty)] at hlocated
      obtain ⟨top, htop, hplace⟩ := Files.locate_slash_append hempty hne hs hlocated
      exact ⟨top, .searched hs hd htop, hplace⟩

end World

end FieldPatch

import FieldPatch.Proofs.Source.Inclusion
import FieldPatch.Proofs.Source.Scoping
import FieldPatch.Proofs.World.Course

/-! Scripts: where they are looked up, and which program is run then. The command is not checked
the way the names of included files are, and the path that was found from one directory is
followed once more from another. -/

namespace FieldPatch

variable {w : World} {ctx : Context} {command path : String}

theorem findScript_eq_ok_iff :
    findScript w ctx command = .ok path ↔
      ∃ root, path = Path.join root command ∧ w.hasFile path = true ∧
        ∃ before after, ctx.scriptRoots = before ++ root :: after ∧
          ∀ earlier ∈ before, w.hasFile (Path.join earlier command) = false := by
  rw [← find?_map_hasFile_eq_some_iff]
  unfold findScript
  cases (ctx.scriptRoots.map fun root => Path.join root command).find? w.hasFile <;> simp

theorem findScript_eq_error_iff {err : Error} :
    findScript w ctx command = .error err ↔
      err = .notFound (.script command ctx.scriptRoots) ∧
        ∀ root ∈ ctx.scriptRoots, w.hasFile (Path.join root command) = false := by
  have hnone : (ctx.scriptRoots.map fun root => Path.join root command).find? w.hasFile = none ↔
      ∀ root ∈ ctx.scriptRoots, w.hasFile (Path.join root command) = false := by
    simp
  rw [← hnone]
  unfold findScript
  cases (ctx.scriptRoots.map fun root => Path.join root command).find? w.hasFile <;>
    simp [eq_comm]

/-- A command that cannot lead out is looked up like a file that is included without an app. -/
theorem findScript_eq_ok_iff_foundBelow (hc : ¬ Path.Escapes command) :
    findScript w ctx command = .ok path ↔
      ∃ root, FoundBelow w ctx.scriptRoots "" command root path := by
  have hempty : ¬ Path.Escapes "" := by simp [Path.Escapes, Path.isAbsolute_iff, Path.split]
  rw [findScript_eq_ok_iff]
  exact exists_congr fun root => (foundBelow_iff hempty hc).symm

theorem findScript_of_absolute (hc : Path.isAbsolute command = true) :
    findScript w ctx command = .ok path ↔
      path = command ∧ w.hasFile command = true ∧ ctx.scriptRoots ≠ [] := by
  have hjoin : ∀ root, Path.join root command = command := by simp [Path.join, hc]
  simp only [findScript_eq_ok_iff, hjoin]
  constructor
  · rintro ⟨root, rfl, hf, before, after, hroots, -⟩
    exact ⟨rfl, hf, by simp [hroots]⟩
  · rintro ⟨rfl, hf, hne⟩
    obtain ⟨root, more, hroots⟩ := List.exists_cons_of_ne_nil hne
    exact ⟨root, rfl, hf, [], more, hroots, List.forall_mem_nil _⟩

theorem exists_up_of_findScript (hc : Path.isAbsolute command = false)
    (hup : ['.', '.'] ∈ Path.split command.toList) (h : findScript w ctx command = .ok path) :
    ∃ root ∈ ctx.scriptRoots, ∃ below, Path.parts path = Path.parts root ++ below ∧ .up ∈ below := by
  obtain ⟨root, rfl, -, before, after, hroots, -⟩ := findScript_eq_ok_iff.mp h
  obtain ⟨below, hparts, -, hiff⟩ := @Path.parts_join_of_relative root command hc
  exact ⟨root, by simp [hroots], below, hparts, hiff.mpr hup⟩

/-- Scripts come from the roots as long as the command does not lead out of them: the path is then
the one that the first root which has the script has below itself. Where no root has it, the failure
names the command. A command that is absolute takes the place of the root, and one with a stretch
`..` goes up from there. -/
theorem scripts_below_roots_unless_escaping (w : World) (ctx : Context) (command : String) :
    (¬ Path.Escapes command → ∀ path, findScript w ctx command = .ok path ↔
      ∃ root, FoundBelow w ctx.scriptRoots "" command root path) ∧
    (∀ err, findScript w ctx command = .error err ↔
      err = .notFound (.script command ctx.scriptRoots) ∧
        ∀ root ∈ ctx.scriptRoots, w.hasFile (Path.join root command) = false) ∧
    (Path.isAbsolute command = true → ∀ path, findScript w ctx command = .ok path ↔
      path = command ∧ w.hasFile command = true ∧ ctx.scriptRoots ≠ []) ∧
    (Path.isAbsolute command = false → ['.', '.'] ∈ Path.split command.toList →
      ∀ path, findScript w ctx command = .ok path → ∃ root ∈ ctx.scriptRoots, ∃ below,
        Path.parts path = Path.parts root ++ below ∧ .up ∈ below) :=
  ⟨fun hc _ => findScript_eq_ok_iff_foundBelow hc, fun _ => findScript_eq_error_iff,
    fun hc _ => findScript_of_absolute hc, fun hc hup _ => exists_up_of_findScript hc hup⟩

/-- Some files below the working directory `/work`, with programs that tell which they are. -/
def workWorld (files : Files) : World :=
  { files := (["work"], .directory) :: files, directory := ["work"], environment := []
    perform := fun i => ⟨.exited 0, i.program, []⟩ }

/-- The command `../out.sh` gets to a file beside the only root. -/
theorem script_found_beside_root :
    ¬ ∀ (w : World) (ctx : Context) (command path : String), findScript w ctx command = .ok path →
      ∃ root ∈ ctx.scriptRoots, ∃ below, Path.parts path = Path.parts root ++ below ∧
        ∀ p ∈ below, p.Inner := by
  intro h
  let w := workWorld [(["work", "scripts"], .directory), (["work", "out.sh"], .file [] true)]
  have hf : findScript w (.root ".") "../out.sh" = .ok "./scripts/../out.sh" := by decide +kernel
  obtain ⟨root, hroot, below, hparts, hinner⟩ := h w (.root ".") "../out.sh" _ hf
  have hroots : (Context.root ".").scriptRoots = ["./scripts"] := by decide +kernel
  obtain rfl : root = "./scripts" := by simpa [hroots] using hroot
  have hpath : Path.parts "./scripts/../out.sh" =
      Path.parts "./scripts" ++ [.up, .name "out.sh"] := by decide +kernel
  rw [hpath, List.append_cancel_left_eq] at hparts
  have hup := hinner .up (by simp [← hparts])
  exact (Path.Part.inner_iff.mp hup).2 rfl

theorem isAbsolute_of_findScript (h : findScript w ctx command = .ok path)
    (hroots : ∀ root ∈ ctx.scriptRoots, Path.isAbsolute root = true) :
    Path.isAbsolute path = true := by
  obtain ⟨root, rfl, -, before, after, hr, -⟩ := findScript_eq_ok_iff.mp h
  have ha := hroots root (by simp [hr])
  cases hc : Path.isAbsolute command with
  | true =>
    simp only [Path.join, hc, Bool.true_or, if_true]
  | false =>
    have hne : root ≠ "" := by
      rintro rfl
      obtain ⟨cs, hcs⟩ := Path.isAbsolute_iff.mp ha
      cases hcs
    rw [Path.isAbsolute_join hne hc, ha]

/-- The output of a script source comes from a run of the path that was found. -/
theorem exists_run_of_scriptWith {evaluate : Evaluator}
    {arguments environment : List (String × Source)} {input : Option Source} {text : String}
    (h : findScript w ctx command = .ok path)
    (hs : (scriptWith evaluate w ctx command arguments environment input).run = some (.ok text)) :
    ∃ arguments environment input ending,
      w.run path arguments environment ctx.home input = .ok ending ∧
        outputOf command ending = .ok text := by
  rw [scriptWith, h, Evaluation.of_ok_bind] at hs
  obtain ⟨arguments, -, hs⟩ := Evaluation.ok_of_run_bind hs
  obtain ⟨environment, -, hs⟩ := Evaluation.ok_of_run_bind hs
  extract_lets started at hs
  have hs : ∃ given, (started given).run = some (.ok text) := by
    cases input with
    | none => exact ⟨"", hs⟩
    | some s =>
      obtain ⟨given, -, hs⟩ := Evaluation.ok_of_run_bind hs
      exact ⟨given, hs⟩
  obtain ⟨given, hs⟩ := hs
  cases hr : w.run path (arguments.map Prod.snd) environment ctx.home given with
  | error fault =>
    simp only [started, hr] at hs
    cases hs
  | ok ending =>
    simp only [started, hr] at hs
    exact ⟨_, _, _, ending, hr, Option.some.inj hs⟩

/-- A command whose script was found at `path`, which leads to `found` from the working directory.
The script is started by the same path, which is then followed from elsewhere. -/
structure RunsFrom (w : World) (ctx : Context) (command path : String) (found : List String) :
    Prop where
  located : w.files.locate w.directory path = .ok found
  file : ∃ content executable, w.files.entry? found = some (.file content executable)
  output : ∀ evaluate arguments environment input text,
    (scriptWith evaluate w ctx command arguments environment input).run = some (.ok text) →
    ∃ arguments settings input home place i,
      w.Executes path arguments settings ctx.home input home place i ∧
        outputOf command (w.perform i) = .ok text
  runs : ∀ arguments settings input ending,
    w.run path arguments settings ctx.home input = .ok ending ↔
      World.refuses arguments settings ctx.home = false ∧ ∃ home place i,
        w.Executes path arguments settings ctx.home input home place i ∧ ending = w.perform i
  same_iff : ∀ arguments settings input home place i,
    w.Executes path arguments settings ctx.home input home place i →
    ∃ top, w.FollowedFrom path (w.environmentWith settings) home top ∧
      w.files.locate top path = .ok place ∧
      (place = found ↔ Files.SameStart path top w.directory)
  other : ¬ Path.Escapes path → ∀ arguments settings input home place i,
    w.Executes path arguments settings ctx.home input home place i →
    ¬ w.FollowedFrom path (w.environmentWith settings) home w.directory → place ≠ found
  same : ∀ arguments settings input home (i : Invocation), w.enter ctx.home = .ok home →
    Path.isAbsolute path = true ∨ home = w.directory ∧ Path.hasSlash path = true →
    w.files.entry? found = some (.file i.program true) → w.load i = .ok () →
    i = ⟨path, i.program, arguments, w.environmentWith settings, home, Utf8.encode input⟩ →
    w.Executes path arguments settings ctx.home input home found i
  absolute : (∀ root ∈ ctx.scriptRoots, Path.isAbsolute root = true) →
    Path.isAbsolute path = true

/-- The script that was found is the one that runs exactly if its path makes no difference between
the working directory and the directory that it is followed from then. That is the home directory,
or for a path without a slash a directory where programs are looked for. The same script always
runs if the path is absolute, as it is below absolute roots, or if it has a slash and the home
directory is the working directory. If the path only leads down from where it starts, and it does
not start from the working directory, another one does. -/
theorem script_runs_as_found_iff (h : findScript w ctx command = .ok path) :
    ∃ found, RunsFrom w ctx command path found := by
  obtain ⟨-, -, hf, -⟩ := findScript_eq_ok_iff.mp h
  obtain ⟨found, content, executable, hfound, hentry⟩ := World.exists_place_of_hasFile hf
  have hiff : ∀ {arguments settings input home place i},
      w.Executes path arguments settings ctx.home input home place i →
      ∃ top, w.FollowedFrom path (w.environmentWith settings) home top ∧
        w.files.locate top path = .ok place ∧
        (place = found ↔ Files.SameStart path top w.directory) := by
    intro arguments settings input home place i hx
    obtain ⟨top, htop, hplace⟩ := hx.followed
    exact ⟨top, htop, hplace, Files.locate_eq_iff hfound hplace⟩
  refine ⟨found, hfound, ⟨content, executable, hentry⟩, fun _ _ _ _ _ hs => ?_,
    fun _ _ _ _ => World.run_eq_ok_iff, fun _ _ _ _ _ _ hx => hiff hx,
    fun hdown _ _ _ _ _ _ hx hno hsame => ?_, fun _ _ _ home _ hh hs hfile hload hi => ?_,
    isAbsolute_of_findScript h⟩
  · obtain ⟨arguments, settings, input, _, hr, hout⟩ := exists_run_of_scriptWith h hs
    obtain ⟨-, home, place, i, hx, rfl⟩ := World.run_eq_ok_iff.mp hr
    exact ⟨arguments, settings, input, home, place, i, hx, hout⟩
  · obtain ⟨top, htop, -, hi⟩ := hiff hx
    rw [hi, Files.sameStart_iff_of_not_escapes hdown] at hsame
    exact hno (hsame ▸ htop)
  · have hslash : Path.hasSlash path = true := hs.elim Path.hasSlash_of_isAbsolute And.right
    have hplace : w.files.locate home path = .ok found := by
      rcases hs with ha | ⟨rfl, -⟩
      · rw [Files.locate_of_absolute ha home w.directory, hfound]
      · exact hfound
    exact World.executes_of_slash hh hslash hplace hfile hload hi

/-- Scripts in `/work/home/scripts` and, once more, below `/work/home/home`. -/
def twoScripts : World :=
  workWorld [
    (["work", "home", "scripts", "x.sh"], .file (Utf8.encode "#!/bin/sh\necho found\n") true),
    (["work", "home", "home", "scripts", "x.sh"], .file (Utf8.encode "#!/bin/sh\necho other\n") true)]

theorem script_runs_as_found_in_home :
    findScript twoScripts (.root "/work/home") "x.sh" = .ok "/work/home/scripts/x.sh" ∧
      (∃ found, RunsFrom twoScripts (.root "/work/home") "x.sh" "/work/home/scripts/x.sh" found) ∧
      twoScripts.run "/work/home/scripts/x.sh" [] [] "/work/home" "" =
        .ok ⟨.exited 0, Utf8.encode "#!/bin/sh\necho found\n", []⟩ := by
  have h : findScript twoScripts (.root "/work/home") "x.sh" = .ok "/work/home/scripts/x.sh" := by
    decide +kernel
  obtain ⟨found, hr⟩ := script_runs_as_found_iff h
  have hplace : twoScripts.files.locate twoScripts.directory "/work/home/scripts/x.sh" =
      .ok ["work", "home", "scripts", "x.sh"] := by decide +kernel
  obtain rfl := Except.ok.inj (hplace.symm.trans hr.located)
  let i : Invocation :=
    ⟨"/work/home/scripts/x.sh", Utf8.encode "#!/bin/sh\necho found\n", [], [], ["work", "home"],
      Utf8.encode ""⟩
  have hx := hr.same [] [] "" ["work", "home"] i (by decide +kernel) (.inl (by decide +kernel))
    (by decide +kernel) (by decide +kernel) rfl
  exact ⟨h, ⟨_, hr⟩, (hr.runs [] [] "" _).mpr ⟨by decide +kernel, _, _, i, hx, rfl⟩⟩

/-- With the relative home directory `home` the script of that directory is found, and another one,
below a second `home`, is run. -/
theorem other_script_runs :
    ¬ ∀ (w : World) (ctx : Context) (command path : String) (content : List UInt8)
      (arguments : List String) (environment : Entries String) (input : String) (ending : Ending),
      findScript w ctx command = .ok path → w.readBytes path = .ok content →
      w.run path arguments environment ctx.home input = .ok ending →
      ∃ i : Invocation, i.program = content ∧ ending = w.perform i := by
  intro h
  have hf : findScript twoScripts (.root "home") "x.sh" = .ok "home/scripts/x.sh" := by
    decide +kernel
  have hb : twoScripts.readBytes "home/scripts/x.sh" =
      .ok (Utf8.encode "#!/bin/sh\necho found\n") := by
    decide +kernel
  have hr : twoScripts.run "home/scripts/x.sh" [] [] "home" "" =
      .ok ⟨.exited 0, Utf8.encode "#!/bin/sh\necho other\n", []⟩ := by
    decide +kernel
  obtain ⟨i, hi, he⟩ := h twoScripts (.root "home") "x.sh" _ _ [] [] "" _ hf hb hr
  -- a program of this world prints itself
  have hprogram : Utf8.encode "#!/bin/sh\necho other\n" = i.program := congrArg Ending.output he
  rw [hi] at hprogram
  exact absurd hprogram (by decide +kernel)

/-- A tool in the working directory and one of the same name among the programs of the system. -/
def twoTools : World :=
  workWorld [
    (["work", "ls"], .file (Utf8.encode "#!/bin/sh\necho found\n") true),
    (["usr", "bin", "ls"], .file (Utf8.encode "#!/bin/sh\necho other\n") true)]

example : findScript twoTools { Context.root "/work" with scriptRoots := [""] } "ls" = .ok "ls" ∧
    twoTools.run "ls" [] [] "/work" "" =
      .ok ⟨.exited 0, Utf8.encode "#!/bin/sh\necho other\n", []⟩ := by
  decide +kernel

end FieldPatch

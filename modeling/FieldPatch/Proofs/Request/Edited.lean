import FieldPatch.Proofs.Selector.Stream
import FieldPatch.Proofs.Source.Apart
import FieldPatch.Proofs.World.Writing
import FieldPatch.Request.Outcome

/-! Runs that edit a file. Such a run writes the file at the very end, if it writes at all, and
one that fails has touched nothing. -/

namespace FieldPatch

variable {w : World} {file : String} {inPlace : Bool}

/-- What there is to see of a run that ends with documents spelled as `text`. -/
def Outcome.Delivers (w : World) (file : String) (inPlace changed : Bool) (text : String)
    (o : Outcome) : Prop :=
  o.output = (if inPlace then "" else text) ∧
    if inPlace && changed then w.Replaces file (Utf8.encode text) o.files else o.files = w.files

/-- A run that failed, having said `note` before and done nothing else. -/
def Outcome.failed (w : World) (note : String) (r : Report) : Outcome :=
  ⟨1, "", note ++ r.render, w.files⟩

def Outcome.printed (w : World) (note text : String) : Outcome := ⟨0, text, note, w.files⟩

namespace Program

variable {α β : Type} {x : Program α} {f : α → Program β} {g : World → Except Report α}
  {p q : Progress} {a : α} {r : Report}

theorem run_bind_of_ok (h : x.run p = .ok a q) : (x >>= f).run p = (f a).run q := by
  simp only [EStateM.run, bind, EStateM.bind] at h ⊢
  rw [h]

theorem run_bind_of_error (h : x.run p = .error r q) : (x >>= f).run p = .error r q := by
  simp only [EStateM.run, bind, EStateM.bind] at h ⊢
  rw [h]

theorem run_ask_of_ok (h : g p.world = .ok a) : (ask g).run p = .ok a p := by
  simp only [EStateM.run, ask, h]

theorem run_ask_of_error (h : g p.world = .error r) : (ask g).run p = .error r p := by
  simp only [EStateM.run, ask, h]

theorem outcome_of_ok {work : Program Unit} {s : Progress} (h : work.run ⟨w, "", ""⟩ = .ok () s) :
    work.outcome w = ⟨0, s.output, s.errors, s.world.files⟩ := by
  rw [outcome, h]

theorem outcome_of_error {work : Program Unit} {s : Progress}
    (h : work.run ⟨w, "", ""⟩ = .error r s) :
    work.outcome w = ⟨1, s.output, s.errors ++ r.render, s.world.files⟩ := by
  rw [outcome, h]

theorem run_print (text : String) :
    (print text).run p = .ok () { p with output := p.output ++ text } := rfl

theorem run_note (text : String) :
    (note text).run p = .ok () { p with errors := p.errors ++ text } := rfl

theorem run_replace (file text : String) {names : List String}
    (h : p.world.files.locate p.world.directory file = .ok names) :
    (replace file text).run p = .ok () { p with world := { p.world with
      files := p.world.files.write names (Utf8.encode text) } } := by
  have hask := run_ask_of_ok (g := fun w => (w.files.locate w.directory file).mapError fun fault =>
    Report.within "creating temporary file" (.ofFault fault)) (mapError_eq_ok_iff.mpr h)
  rw [replace, run_bind_of_ok hask]
  rfl

end Program

namespace Request

variable {prepare : World → Except Report Edited} {e : Edited} {r : Report} {fault : Error}
  {s text old : String} {p : Progress} {inPlace : Bool}

theorem display_of_error {f : World → Except Report String} (h : f w = .error r) :
    (display f).outcome w = .failed w "" r := by
  have hask := Program.run_ask_of_error (p := ⟨w, "", ""⟩) h
  rw [display, Program.outcome_of_error (Program.run_bind_of_error hask)]
  rfl

theorem display_of_ok {f : World → Except Report String} (h : f w = .ok text) :
    (display f).outcome w = .printed w "" text := by
  have hask := Program.run_ask_of_ok (p := ⟨w, "", ""⟩) h
  have hrun := (Program.run_bind_of_ok hask).trans (Program.run_print text)
  rw [display, Program.outcome_of_ok hrun, String.empty_append]
  rfl

theorem run_deliver_of_error (hw : e.format.writeAll e.documents = .error fault) :
    (deliver e inPlace).run p = .error (.ofError fault) p := by
  have hask : (Program.ask fun _ => (e.format.writeAll e.documents).mapError Report.ofError).run p =
      .error (.ofError fault) p := Program.run_ask_of_error (by rw [hw]; rfl)
  exact Program.run_bind_of_error hask

theorem run_deliver_of_ok (hw : e.format.writeAll e.documents = .ok text) :
    (deliver e inPlace).run p =
      (if !inPlace then Program.print text
        else if e.changed then Program.replace e.file text
        else pure ()).run p := by
  have hask : (Program.ask fun _ => (e.format.writeAll e.documents).mapError Report.ofError).run p =
      .ok text p := Program.run_ask_of_ok (by rw [hw]; rfl)
  exact Program.run_bind_of_ok hask

theorem edit_of_error (h : prepare w = .error r) (inPlace : Bool) :
    (edit prepare inPlace).outcome w = .failed w "" r := by
  have hask := Program.run_ask_of_error (p := ⟨w, "", ""⟩) h
  rw [edit, Program.outcome_of_error (Program.run_bind_of_error hask)]
  rfl

/-- Once the documents are there, nothing has been done but to say something about them. -/
theorem run_edit (h : prepare w = .ok e) (inPlace : Bool) :
    (edit prepare inPlace).run ⟨w, "", ""⟩ = (deliver e inPlace).run ⟨w, "", e.note⟩ := by
  have hask := Program.run_ask_of_ok (p := ⟨w, "", ""⟩) h
  have hnote := Program.run_note (p := ⟨w, "", ""⟩) e.note
  rw [edit, Program.run_bind_of_ok hask, Program.run_bind_of_ok hnote, String.empty_append]

theorem edit_of_unwritable (h : prepare w = .ok e)
    (hw : e.format.writeAll e.documents = .error fault) (inPlace : Bool) :
    (edit prepare inPlace).outcome w = .failed w e.note (.ofError fault) := by
  rw [Program.outcome_of_error ((run_edit h inPlace).trans (run_deliver_of_error hw))]
  rfl

theorem edit_of_ok (h : prepare w = .ok e) (hr : w.readText e.file = .ok old)
    (hw : e.format.writeAll e.documents = .ok text) (inPlace : Bool) :
    ((edit prepare inPlace).outcome w).code = 0 ∧
      ((edit prepare inPlace).outcome w).Delivers w e.file inPlace e.changed text := by
  -- the file is where it was when it was read
  obtain ⟨bytes, hb⟩ := World.readBytes_of_readText hr
  obtain ⟨place, executable, hp, hf⟩ := World.readBytes_eq_ok_iff.mp hb
  have hrun := (run_edit h inPlace).trans (run_deliver_of_ok hw)
  cases inPlace with
  | false =>
    rw [Program.outcome_of_ok (hrun.trans (Program.run_print text)), String.empty_append]
    exact ⟨rfl, rfl, rfl⟩
  | true =>
    cases hc : e.changed with
    | false =>
      rw [hc] at hrun
      rw [Program.outcome_of_ok hrun]
      exact ⟨rfl, rfl, rfl⟩
    | true =>
      rw [hc] at hrun
      rw [Program.outcome_of_ok (hrun.trans (Program.run_replace e.file text hp))]
      exact ⟨rfl, rfl, World.replaces_write hp hf (Utf8.encode text)⟩

end Request

/-- A run that gets to its last documents through `final` has nothing left to do then but to
write them. -/
structure WritesLast (w : World) (file : String) (inPlace : Bool)
    (final : Format → List Tree → Bool → Prop) (o : Outcome) : Prop where
  succeeds_iff : o.code = 0 ↔
    ∃ f docs changed text, final f docs changed ∧ f.writeAll docs = .ok text
  succeeded : ∀ f docs changed text, final f docs changed → f.writeAll docs = .ok text →
    o.Delivers w file inPlace changed text
  failed : o.code ≠ 0 → o.output = "" ∧ o.files = w.files

namespace Request

/-- The documents that `set` ends with: those of the file, written one by one, where there is at
least one with the place. -/
def SetsTo (w : World) (file selector value : String) (format : Option String)
    (f : Format) (final : List Tree) (changed : Bool) : Prop :=
  ∃ docs e, readDocuments w file format = .ok (docs, f) ∧ Selector.parse selector = .ok e ∧
    Selector.Writable value e docs ∧ (∃ t ∈ docs, ∃ r, Selector.set value e t = .ok r) ∧
    final = docs.map (Selector.written value e) ∧
    (changed = true ↔ ∃ t ∈ docs, ∃ t', Selector.set value e t = .ok (t', true))

/-- The documents that `apply` ends with: those of the file, each taken alone through all changes. -/
def AppliesTo (w : World) (config file : String) (tag home : Option String)
    (f : Format) (final : List Tree) (changed : Bool) : Prop :=
  ∃ c ctx docs, readConfig w Config.revision config = .ok c ∧
    rootContext w home c.functions = .ok ctx ∧ readDocuments w file none = .ok (docs, f) ∧
    ∃ results, docs.mapM (alone w { ctx with file } tag file c.orders) = .ok results ∧
      final = results.map Prod.fst ∧ (changed = true ↔ ∃ r ∈ results, some true ∈ r.2)

theorem readText_of_readDocuments {format : Option String} {r : List Tree × Format}
    (h : readDocuments w file format = .ok r) : ∃ text, w.readText file = .ok text := by
  obtain ⟨f, -, h⟩ := ok_of_bind h
  obtain ⟨text, ht, -⟩ := ok_of_bind h
  exact ⟨text, mapError_eq_ok_iff.mp ht⟩

/-- What `overwritten` and `revised` have in common. -/
structure Prepares (w : World) (file : String) (final : Format → List Tree → Bool → Prop)
    (x : Except Report Edited) : Prop where
  sound : ∀ e, x = .ok e → e.file = file ∧ final e.format e.documents e.changed
  complete : ∀ f docs changed, final f docs changed →
    ∃ note, x = .ok { file, format := f, documents := docs, changed, note }
  readable : ∀ f docs changed, final f docs changed → ∃ text, w.readText file = .ok text

theorem overwritten_prepares (w : World) (file selector value : String) (format : Option String) :
    Prepares w file (SetsTo w file selector value format)
      (overwritten w file selector value format) where
  sound := by
    intro e h
    obtain ⟨⟨docs, f⟩, hd, h⟩ := ok_of_bind h
    obtain ⟨expression, he, h⟩ := ok_of_bind h
    obtain ⟨⟨documents, changed⟩, hs, h⟩ := ok_of_bind h
    cases h
    exact ⟨rfl, docs, expression, hd, mapError_eq_ok_iff.mp he,
      Selector.setAll_eq_ok_iff.mp (mapError_eq_ok_iff.mp hs)⟩
  complete := by
    rintro f final changed ⟨docs, e, hd, he, hs⟩
    refine ⟨if changed then "" else file ++ ": unchanged\n", ?_⟩
    simp only [overwritten, hd, mapError_eq_ok_iff.mpr he,
      mapError_eq_ok_iff.mpr (Selector.setAll_eq_ok_iff.mpr hs), ok_bind]
    rfl
  readable := by
    rintro f final changed ⟨docs, e, hd, -⟩
    exact readText_of_readDocuments hd

theorem revised_prepares (w : World) (config file : String) (tag home : Option String) :
    Prepares w file (AppliesTo w config file tag home) (revised w config file tag home) where
  sound := by
    intro e h
    obtain ⟨c, hc, h⟩ := ok_of_bind h
    obtain ⟨ctx, hx, h⟩ := ok_of_bind h
    obtain ⟨⟨docs, f⟩, hd, h⟩ := ok_of_bind h
    dsimp only at h
    split at h
    · cases h
    · next hnone =>
      cases h
      obtain ⟨results, hresults, hdocs, hchanges⟩ := mapM_alone_of_none hnone
      refine ⟨rfl, c, ctx, docs, hc, hx, hd, results, hresults, hdocs, ?_⟩
      rw [decide_eq_true_iff]
      exact hchanges
  complete := by
    rintro f final changed ⟨c, ctx, docs, hc, hx, hd, results, hresults, rfl, hflag⟩
    have hnone := failure_eq_none_iff.mpr fun t ht =>
      have ⟨r, _, hr⟩ := exists_ok_of_forall₂ (mapM_eq_ok_iff.mp hresults) ht
      ⟨r, hr⟩
    obtain ⟨results', hresults', hdocs, hchanges⟩ := mapM_alone_of_none hnone
    obtain rfl := Except.ok.inj (hresults.symm.trans hresults')
    rw [← hchanges] at hflag
    obtain rfl := Bool.eq_iff_iff.mpr (hflag.trans decide_eq_true_iff.symm)
    simp only [revised, hc, hx, hd, ok_bind, hnone, hdocs]
    exact ⟨_, rfl⟩
  readable := by
    rintro f final changed ⟨c, ctx, docs, -, -, hd, -⟩
    exact readText_of_readDocuments hd

theorem writesLast_failed {final : Format → List Tree → Bool → Prop}
    (h : ∀ f docs changed text, final f docs changed → f.writeAll docs ≠ .ok text)
    (note : String) (r : Report) : WritesLast w file inPlace final (.failed w note r) where
  succeeds_iff := by
    refine ⟨fun hc => (nomatch hc), ?_⟩
    rintro ⟨f, docs, changed, text, hf, ht⟩
    exact absurd ht (h f docs changed text hf)
  succeeded f docs changed text hf ht := absurd ht (h f docs changed text hf)
  failed _ := ⟨rfl, rfl⟩

theorem Prepares.writesLast {final : Format → List Tree → Bool → Prop}
    {prepare : World → Except Report Edited} (h : Prepares w file final (prepare w))
    (inPlace : Bool) : WritesLast w file inPlace final ((edit prepare inPlace).outcome w) := by
  cases hx : prepare w with
  | error r =>
    rw [edit_of_error hx]
    refine writesLast_failed (fun f docs changed text hf _ => ?_) "" r
    obtain ⟨note, hok⟩ := h.complete f docs changed hf
    rw [hx] at hok
    cases hok
  | ok e =>
    obtain ⟨rfl, he⟩ := h.sound e hx
    have hunique : ∀ f docs changed, final f docs changed →
        f = e.format ∧ docs = e.documents ∧ changed = e.changed := by
      intro f docs changed hf
      obtain ⟨note, hok⟩ := h.complete f docs changed hf
      have heq := Except.ok.inj (hx.symm.trans hok)
      exact ⟨(congrArg Edited.format heq).symm, (congrArg Edited.documents heq).symm,
        (congrArg Edited.changed heq).symm⟩
    cases hw : e.format.writeAll e.documents with
    | error fault =>
      rw [edit_of_unwritable hx hw]
      refine writesLast_failed (fun f docs changed text hf ht => ?_) e.note (.ofError fault)
      obtain ⟨rfl, rfl, -⟩ := hunique f docs changed hf
      rw [hw] at ht
      cases ht
    | ok text =>
      obtain ⟨old, hold⟩ := h.readable _ _ _ he
      obtain ⟨hcode, hdelivers⟩ := edit_of_ok hx hold hw inPlace
      refine ⟨iff_of_true hcode ⟨_, _, _, _, he, hw⟩, ?_, fun hne => absurd hcode hne⟩
      intro f docs changed text' hf ht
      obtain ⟨rfl, rfl, rfl⟩ := hunique f docs changed hf
      rw [hw] at ht
      cases ht
      exact hdelivers

theorem display_of_failed {f : World → Except Report String}
    (h : ((display f).outcome w).code ≠ 0) :
    ((display f).outcome w).output = "" ∧ ((display f).outcome w).files = w.files := by
  cases hf : f w with
  | error r =>
    rw [display_of_error hf]
    exact ⟨rfl, rfl⟩
  | ok text =>
    rw [display_of_ok hf] at h
    exact absurd rfl h

theorem outcome_of_failed {r : Request} (h : (r.outcome w).code ≠ 0) :
    (r.outcome w).output = "" ∧ (r.outcome w).files = w.files := by
  cases r with
  | get file selector format => exact display_of_failed h
  | eval config document home => exact display_of_failed h
  | set file selector value format inPlace =>
    exact ((overwritten_prepares w file selector value format).writesLast inPlace).failed h
  | apply config file tag inPlace home =>
    exact ((revised_prepares w config file tag home).writesLast inPlace).failed h

end Request

theorem Refusal.outcome_of_failed {r : Refusal} (h : (r.outcome w).code ≠ 0) :
    (r.outcome w).output = "" ∧ (r.outcome w).files = w.files := by
  cases r with
  | misuse => exact ⟨rfl, rfl⟩
  | help | version => exact absurd rfl h

/-- A command that fails prints nothing and leaves all files as they are. One that edits a file
succeeds exactly if it gets to documents that can be spelled. It prints them then, or in place
makes them the content of the file if a write reported a change. No other file is touched. -/
theorem edits_write_last (w : World) :
    (∀ arguments, (runCommand w arguments).code ≠ 0 →
      (runCommand w arguments).output = "" ∧ (runCommand w arguments).files = w.files) ∧
    (∀ file selector value format inPlace,
      WritesLast w file inPlace (Request.SetsTo w file selector value format)
        (Request.outcome w (.set file selector value format inPlace))) ∧
    ∀ config file tag inPlace home,
      WritesLast w file inPlace (Request.AppliesTo w config file tag home)
        (Request.outcome w (.apply config file tag inPlace home)) := by
  refine ⟨fun arguments h => ?_, fun file selector value format inPlace => ?_,
    fun config file tag inPlace home => ?_⟩
  · unfold runCommand at h ⊢
    cases ha : Request.ofArguments arguments with
    | ok r =>
      simp only [ha] at h ⊢
      exact Request.outcome_of_failed h
    | error refusal =>
      simp only [ha] at h ⊢
      exact Refusal.outcome_of_failed h
  · exact (Request.overwritten_prepares w file selector value format).writesLast inPlace
  · exact (Request.revised_prepares w config file tag home).writesLast inPlace

def podText (port : String) : String := "\x7b\n  \"port\": \"" ++ port ++ "\"\n\x7d\n"

/-- A world with one file. -/
def podWorld : World :=
  { files := [(["pod.json"], .file (Utf8.encode (podText "http")) false)], directory := []
    environment := [], perform := fun _ => ⟨.exited 0, [], []⟩ }

theorem readDocuments_pod :
    Request.readDocuments podWorld "pod.json" none = .ok ([.map [("port", .text "http")]], .json) := by
  have hf : Format.ofPath "pod.json" = .ok .json := by decide +kernel
  have ht : podWorld.readText "pod.json" = .ok (podText "http") := by decide +kernel
  simp only [Request.readDocuments, Request.readFile, hf, ht]
  rfl

def podSet (selector : String) (inPlace : Bool) : Outcome :=
  Request.outcome podWorld (.set "pod.json" selector "https" none inPlace)

theorem edits_write_last_pod :
    Request.SetsTo podWorld "pod.json" ".port" "https" none .json [.map [("port", .text "https")]]
      true ∧
    ((podSet ".port" true).code = 0 ∧ (podSet ".port" true).output = "" ∧
      podWorld.Replaces "pod.json" (Utf8.encode (podText "https")) (podSet ".port" true).files) ∧
    ((podSet ".port" false).output = podText "https" ∧
      (podSet ".port" false).files = podWorld.files) ∧
    (podSet ".port.name" true).code ≠ 0 ∧ (podSet ".port.name" true).output = "" ∧
      (podSet ".port.name" true).files = podWorld.files := by
  obtain ⟨-, hset, -⟩ := edits_write_last podWorld
  have hsets : Request.SetsTo podWorld "pod.json" ".port" "https" none .json
      [.map [("port", .text "https")]] true := by
    refine ⟨_, ⟨".port", [.path [.field "port"]]⟩, readDocuments_pod, by decide +kernel, ?_, ?_, rfl,
      ?_⟩
    · rintro t ht err h
      obtain rfl := List.mem_singleton.mp ht
      cases h
    · exact ⟨_, List.mem_singleton_self _, _, rfl⟩
    · exact iff_of_true rfl ⟨_, List.mem_singleton_self _, _, rfl⟩
  have htext : Format.json.writeAll [.map [("port", .text "https")]] = .ok (podText "https") := by
    decide +kernel
  have hwritten := hset "pod.json" ".port" "https" none true
  have hprinted := hset "pod.json" ".port" "https" none false
  have hcode := hwritten.succeeds_iff.mpr ⟨_, _, _, _, hsets, htext⟩
  obtain ⟨hout, hfiles⟩ := hwritten.succeeded _ _ _ _ hsets htext
  have hshown := hprinted.succeeded _ _ _ _ hsets htext
  have hstuck := hset "pod.json" ".port.name" "https" none true
  have hfails : (podSet ".port.name" true).code ≠ 0 := by
    rw [Ne, podSet, hstuck.succeeds_iff]
    rintro ⟨f, docs', changed, text, ⟨docs, e, hd, he, -, ⟨t, ht, r, hr⟩, -⟩, -⟩
    have he' : Selector.parse ".port.name" =
        .ok ⟨".port.name", [.path [.field "port", .field "name"]]⟩ := by decide +kernel
    obtain rfl := Except.ok.inj (he'.symm.trans he)
    obtain ⟨rfl, -⟩ := Prod.mk.inj (Except.ok.inj (readDocuments_pod.symm.trans hd))
    obtain rfl := List.mem_singleton.mp ht
    cases hr
  exact ⟨hsets, ⟨hcode, hout, hfiles⟩, hshown, hfails, hstuck.failed hfails⟩

end FieldPatch

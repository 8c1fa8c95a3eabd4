import FieldPatch.Proofs.Request.Edited
import FieldPatch.Proofs.Selector.Failure

/-! The commands `set` and `get` on the documents of a file. A selector without slices is written
in all documents where that is possible, and never fails for what it meets in the others. -/

namespace FieldPatch

namespace Selector

variable {value : String} {e : Expression} {docs : List Tree}

/-- A write without slices fails in no way that would stop a write to other documents. -/
theorem writable_of_slices (hs : e.slices = false) (value : String) (docs : List Tree) :
    Writable value e docs :=
  fun _ _ _ h => (set_unwritable hs _ h).isUnresolved

/-- A write to all documents: it makes of each document what a write to that one makes of it, it
fails only if all of them do, and reaches whatever scalar a read finds. -/
structure WritesEach (value : String) (e : Expression) (docs : List Tree) : Prop where
  succeeds_iff : (∃ r, setAll value e docs = .ok r) ↔ ∃ t ∈ docs, ∃ r, set value e t = .ok r
  written : ∀ docs' changed, setAll value e docs = .ok (docs', changed) →
    docs' = docs.map (written value e) ∧
      (changed = true ↔ ∃ t ∈ docs, ∃ t', set value e t = .ok (t', true))
  reason : ∀ fault, setAll value e docs = .error fault →
    docs = [] ∧ fault = .noDocuments ∨
      ∃ t ts err, docs = t :: ts ∧ set value e t = .error err ∧ fault = .unresolved err
  reached : ∀ node text, findFirst e docs = .ok node → node.scalarText = some text →
    ∃ r, setAll value e docs = .ok r

theorem exists_setAll_iff (hw : Writable value e docs) :
    (∃ r, setAll value e docs = .ok r) ↔ ∃ t ∈ docs, ∃ r, set value e t = .ok r := by
  constructor
  · rintro ⟨⟨docs', changed⟩, h⟩
    exact (setAll_eq_ok_iff.mp h).2.1
  · intro h
    by_cases hflag : ∃ t ∈ docs, ∃ t', set value e t = .ok (t', true)
    · exact ⟨(_, true), setAll_eq_ok_iff.mpr ⟨hw, h, rfl, iff_of_true rfl hflag⟩⟩
    · exact ⟨(_, false), setAll_eq_ok_iff.mpr ⟨hw, h, rfl, iff_of_false nofun hflag⟩⟩

theorem exists_set_of_scalar {t node : Tree} {text : String} (hs : e.slices = false)
    (h : evaluate t e = .ok node) (htext : node.scalarText = some text) (value : String) :
    ∃ r, set value e t = .ok r := by
  obtain ⟨l, hl, hg⟩ := locate_of_evaluate h hs
  rw [set_of_locate hl hg]
  simp only [Tree.overwrite, htext]
  exact ⟨_, rfl⟩

theorem writesEach_of_slices (hs : e.slices = false) (value : String) (docs : List Tree) :
    WritesEach value e docs := by
  have hw := writable_of_slices hs value docs
  refine ⟨exists_setAll_iff hw, fun docs' changed h => ?_, fun fault h => setAll_eq_error hw h,
    fun node text h htext => ?_⟩
  · exact (setAll_eq_ok_iff.mp h).2.2
  · obtain ⟨t, ht, he⟩ := exists_of_findFirst h
    exact (exists_setAll_iff hw).mpr ⟨t, ht, exists_set_of_scalar hs he htext value⟩

end Selector

namespace Request

variable {w : World} {file selector value : String} {format : Option String} {inPlace : Bool}
  {docs : List Tree} {f : Format} {e : Selector.Expression}

/-- What the commands that read and write at a selector come to, told by what becomes of the
documents of their file. -/
structure RunsOn (w : World) (file selector value : String) (format : Option String)
    (inPlace : Bool) (f : Format) (e : Selector.Expression) (docs : List Tree) : Prop where
  succeeded : ∀ docs' changed text, Selector.setAll value e docs = .ok (docs', changed) →
    f.writeAll docs' = .ok text →
    (Request.outcome w (.set file selector value format inPlace)).code = 0 ∧
      (Request.outcome w (.set file selector value format inPlace)).Delivers w file inPlace
        changed text
  failed : ∀ fault, Selector.setAll value e docs = .error fault →
    Request.outcome w (.set file selector value format inPlace) =
      .failed w "" (ofStreamFault file selector fault)
  printed : ∀ node text, Selector.findFirst e docs = .ok node → node.scalarText = some text →
    Request.outcome w (.get file selector format) = .printed w "" (Format.endLine text)

theorem overwritten_eq (hd : readDocuments w file format = .ok (docs, f))
    (he : Selector.parse selector = .ok e) :
    overwritten w file selector value format =
      ((Selector.setAll value e docs).mapError (ofStreamFault file selector)).map fun r =>
        { file, format := f, documents := r.1, changed := r.2,
          note := if r.2 then "" else file ++ ": unchanged\n" } := by
  simp only [overwritten, hd, he, Except.mapError, ok_bind]
  cases Selector.setAll value e docs <;> rfl

theorem runsOn_of_readDocuments (hd : readDocuments w file format = .ok (docs, f))
    (he : Selector.parse selector = .ok e) (value : String) (inPlace : Bool) :
    RunsOn w file selector value format inPlace f e docs := by
  obtain ⟨old, hold⟩ := readText_of_readDocuments hd
  refine ⟨fun docs' changed text h htext => ?_, fun fault h => ?_, fun node text h htext => ?_⟩
  · let edited : Edited := ⟨file, f, docs', changed, if changed then "" else file ++ ": unchanged\n"⟩
    have hedited : overwritten w file selector value format = .ok edited := by
      rw [overwritten_eq hd he, h]
      rfl
    exact edit_of_ok (e := edited) hedited hold htext inPlace
  · refine edit_of_error ?_ inPlace
    rw [overwritten_eq hd he, h]
    rfl
  · refine display_of_ok ?_
    have hnode : nodeText f node = .ok text := by simp only [nodeText, htext]
    simp only [selected, hd, he, h, Except.mapError, ok_bind, hnode]
    rfl

end Request

/-- The command `set` treats the documents of its file one by one. For a selector without slices
it ends with all of them, each as a write to that document alone leaves it. It fails exactly if
every one of these writes does, with the error of the first, and never where `get` prints a
scalar. -/
theorem set_treats_documents_one_by_one {selector : String} {e : Selector.Expression}
    (he : Selector.parse selector = .ok e) (hs : e.slices = false) (value : String)
    (docs : List Tree) :
    Selector.WritesEach value e docs ∧
      ∀ (w : World) (file : String) (format : Option String) (inPlace : Bool) (f : Format),
        Request.readDocuments w file format = .ok (docs, f) →
          Request.RunsOn w file selector value format inPlace f e docs :=
  ⟨Selector.writesEach_of_slices hs value docs,
    fun _ _ _ inPlace _ hd => Request.runsOn_of_readDocuments hd he value inPlace⟩

def portOfApi : Selector.Expression :=
  ⟨".pods[] | select(.name == \"api\") | .port",
    [.path [.field "pods", .each], .select ⟨[.field "name"], .equal, .text "api"⟩,
      .path [.field "port"]]⟩

/-- Documents without the place, and behind them one with this port. -/
def podStream (port : Bool) : List Tree :=
  [.null, .map [("pods", .array [.map [("name", .text "api")], .text "web"])],
    .map [("pods", .array [.map [("name", .text "api"), ("port", .bool port)]])]]

theorem set_treats_podStream_one_by_one :
    Selector.parse portOfApi.source = .ok portOfApi ∧ portOfApi.slices = false ∧
      Selector.WritesEach "false" portOfApi (podStream true) ∧
      (∀ (w : World) (file : String) (format : Option String) (inPlace : Bool) (f : Format),
        Request.readDocuments w file format = .ok (podStream true, f) →
          Request.RunsOn w file portOfApi.source "false" format inPlace f portOfApi
            (podStream true)) ∧
      Selector.findFirst portOfApi (podStream true) = .ok (.bool true) ∧
      Selector.setAll "false" portOfApi (podStream true) = .ok (podStream false, true) ∧
      Selector.setAll "false" portOfApi ((podStream true).take 2) =
        .error (.unresolved (.typeMismatch "map" .null)) := by
  have he : Selector.parse portOfApi.source = .ok portOfApi := by decide +kernel
  have hs : portOfApi.slices = false := by decide
  obtain ⟨heach, hruns⟩ := set_treats_documents_one_by_one he hs "false" (podStream true)
  have hread : Selector.findFirst portOfApi (podStream true) = .ok (.bool true) := rfl
  -- what is read there can be written, with the documents that each write leaves
  obtain ⟨⟨docs, changed⟩, hset⟩ := heach.reached _ "true" hread rfl
  obtain ⟨rfl, hflag⟩ := heach.written _ _ hset
  have hchanged : changed = true :=
    hflag.mpr ⟨_, List.mem_of_getElem? (i := 2) rfl, _, rfl⟩
  subst hchanged
  obtain ⟨hfewer, -⟩ := set_treats_documents_one_by_one he hs "false" ((podStream true).take 2)
  have hfails : Selector.setAll "false" portOfApi ((podStream true).take 2) =
      .error (.unresolved (.typeMismatch "map" .null)) := by
    cases hr : Selector.setAll "false" portOfApi ((podStream true).take 2) with
    | ok r =>
      obtain ⟨t, ht, r, hset⟩ := hfewer.succeeds_iff.mp ⟨r, hr⟩
      rcases List.mem_cons.mp ht with rfl | ht
      · cases hset
      · obtain rfl := List.mem_singleton.mp ht
        cases hset
    | error fault =>
      rcases hfewer.reason fault hr with ⟨hnil, -⟩ | ⟨t, ts, err, hdocs, herr, rfl⟩
      · cases hnil
      · obtain ⟨rfl, -⟩ := List.cons.inj hdocs
        cases herr
        rfl
  exact ⟨he, hs, heach, hruns, hread, hset, hfails⟩

end FieldPatch

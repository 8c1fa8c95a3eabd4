import FieldPatch.Config.Source
import FieldPatch.Proofs.Number.Rounded
import FieldPatch.Proofs.Number.Signed
import FieldPatch.Proofs.Yaml.Integer

/-! Integers as defaults of sources, variables of the environment and parameters. Below the upper half
of the unsigned range a default has the text of its integer; from there on it is the text of a double. -/

namespace FieldPatch.Config

open Yaml (Node Resolving)

variable {α β : Type} {anchors : Node.Anchors} {b b' : Nat}

def integerText (n : Whole) : String :=
  if fitsSigned64 n.value then toString n.value else FloatLayout.full.render (.ofInt n.value)

theorem integerText_of_signed {n : Whole} (h : n.value < 0x8000000000000000) :
    integerText n = toString n.value :=
  if_pos ((fitsSigned64_iff n).mpr h)

/-- Beyond the signed range the text of an integer is that of one with two zeros at its end, which
as a double is the same. -/
theorem integerText_of_beyond {n : Whole} (h : 0x8000000000000000 ≤ n.value) :
    ∃ m : Nat, integerText n = toString m ∧ 100 ∣ m ∧
      (Shortest.Interval.of (.ofInt n.value)).Contains m := by
  have hfits : ¬ fitsSigned64 n.value = true := by
    rw [fitsSigned64_iff]
    omega
  rw [integerText, if_neg hfits]
  exact Binary64.render_full_ofInt h n.inRange.2

theorem exists_integerText_eq (n : Whole) : ∃ m : Int, integerText n = toString m ∧
    (n.value < 0x8000000000000000 → m = n.value) ∧
    (0x8000000000000000 ≤ n.value → 100 ∣ m ∧ (Shortest.Interval.of (.ofInt n.value)).Contains m) := by
  by_cases h : n.value < 0x8000000000000000
  · exact ⟨n.value, integerText_of_signed h, fun _ => rfl, fun h' => absurd h (Int.not_lt.mpr h')⟩
  · obtain ⟨m, hm, hdvd, hcontains⟩ := integerText_of_beyond (Int.not_lt.mp h)
    refine ⟨m, hm, fun h' => absurd h' h, fun _ => ⟨by exact_mod_cast hdvd, ?_⟩⟩
    exact_mod_cast hcontains

theorem bind_of_eq {c : Resolving α} {f : α → Resolving β} {a : α}
    (h : c anchors b = some (a, b')) : (c >>= f) anchors b = f a anchors b' := by
  show (c anchors b).bind _ = _
  rw [h]
  rfl

theorem isAbsent_toString (n : Int) :
    isAbsent (.scalar none true (toString n)) anchors b = some (false, b) := by
  show some ((toString n).isEmpty || Yaml.isNullWord (toString n), b) = _
  rw [Yaml.isAbsentText_toString]

theorem literal_toString (n : Whole) (depth : Nat) :
    literal depth (.scalar none true (toString n.value)) anchors b = some (integerText n, b) := by
  show ((Yaml.resolvePlain (toString n.value)).bind scalarText? : Option String).bind _ = _
  rw [Yaml.resolvePlain_toString]
  rfl

/-- The field is the plain scalar `s`, itself or through an alias. -/
def Fields.HasPlain (f : Fields) (name s : String) (anchors : Node.Anchors) (b b' : Nat) : Prop :=
  ∃ v, f.given.lookup name = some v ∧ v.content anchors b = some (.scalar none true s, b')

theorem Fields.default_of_hasPlain {f : Fields} {name : String} {n : Int} {decode : Decoder α} {a : α}
    (h : f.HasPlain name (toString n) anchors b b')
    (hdecode : decode f.depth (.scalar none true (toString n)) anchors b' = some (a, b')) :
    f.default name none (Config.optional decode) anchors b = some (some a, b') := by
  obtain ⟨v, hv, hcontent⟩ := h
  rw [Fields.default, hv]
  dsimp only
  rw [Config.optional, bind_of_eq hcontent, bind_of_eq (isAbsent_toString n), if_neg Bool.false_ne_true,
    bind_of_eq hdecode]
  rfl

def otherKinds (inner : Decoder Source) : List (String × Decoder Source) := (kinds inner).tail

theorem kinds_eq (inner : Decoder Source) :
    kinds inner = ("default", literalSource) :: otherKinds inner :=
  rfl

theorem alternatives_of_default {f : Fields} {n : Whole} {inner : Decoder Source} {b₁ b₂ b₃ : Nat}
    (h : f.HasPlain "default" (toString n.value) anchors b₁ b₂)
    (hothers : alternatives f (otherKinds inner) anchors b₂ = some ([], b₃)) :
    alternatives f (kinds inner) anchors b₁ = some ([.literal (integerText n)], b₃) := by
  have hliteral : literalSource f.depth (.scalar none true (toString n.value)) anchors b₂ =
      some (.literal (integerText n), b₂) := by
    rw [literalSource, bind_of_eq (literal_toString n f.depth)]
    rfl
  have hfirst : ("default" == "default") = true := beq_self_eq_true _
  rw [kinds_eq, alternatives, hfirst, if_pos rfl, bind_of_eq (f.default_of_hasPlain h hliteral)]
  dsimp only
  rw [bind_of_eq hothers]
  rfl

theorem sourceOf_integer {f : Fields} {n : Whole} {inner : Decoder Source} {depth : Nat} {node : Node}
    {b₁ b₂ b₃ : Nat}
    (hf : fields ⟨(kinds inner).map Prod.fst, [], true⟩ depth node anchors b = some (f, b₁))
    (h : f.HasPlain "default" (toString n.value) anchors b₁ b₂)
    (hothers : alternatives f (otherKinds inner) anchors b₂ = some ([], b₃)) :
    sourceOf inner depth node anchors b = some (.literal (integerText n), b₃) := by
  rw [sourceOf, record, bind_of_eq hf, bind_of_eq (alternatives_of_default h hothers)]
  rfl

theorem environmentSource_integer {f : Fields} {n : Whole} {depth : Nat} {node : Node} {name : String}
    {b₁ b₂ b₃ : Nat}
    (hf : fields (.of ["name", "default"]) depth node anchors b = some (f, b₁))
    (hname : f.required "name" text anchors b₁ = some (name, b₂))
    (h : f.HasPlain "default" (toString n.value) anchors b₂ b₃) :
    environmentSource depth node anchors b = some (.environment name (some (integerText n)), b₃) := by
  rw [environmentSource, record, bind_of_eq hf, bind_of_eq hname,
    bind_of_eq (f.default_of_hasPlain h (literal_toString n f.depth))]
  rfl

theorem parameter_integer {f : Fields} {n : Whole} {depth : Nat} {node : Node} {name : String}
    {required : Bool} {b₁ b₂ b₃ b₄ : Nat}
    (hf : fields (.of ["name", "required", "default"]) depth node anchors b = some (f, b₁))
    (hname : f.required "name" text anchors b₁ = some (name, b₂))
    (hrequired : f.default "required" false flag anchors b₂ = some (required, b₃))
    (h : f.HasPlain "default" (toString n.value) anchors b₃ b₄) :
    parameter depth node anchors b = some (⟨name, required, some (integerText n)⟩, b₄) := by
  rw [parameter, record, bind_of_eq hf, bind_of_eq hname, bind_of_eq hrequired,
    bind_of_eq (f.default_of_hasPlain h (literal_toString n f.depth))]
  rfl

/-- The default of a source, of a variable of the environment and of a parameter, where an integer is
written for it, has the text of an integer. In the signed range that is the one written. Beyond, it
is one with two zeros at its end, which as a double is the same. -/
theorem integer_default (n : Whole) : ∃ m : Int,
    (n.value < 0x8000000000000000 → m = n.value) ∧
    (0x8000000000000000 ≤ n.value → 100 ∣ m ∧ (Shortest.Interval.of (.ofInt n.value)).Contains m) ∧
    (∀ (inner : Decoder Source) depth node anchors b f b₁ b₂ b₃,
      fields ⟨(kinds inner).map Prod.fst, [], true⟩ depth node anchors b = some (f, b₁) →
      f.HasPlain "default" (toString n.value) anchors b₁ b₂ →
      alternatives f (otherKinds inner) anchors b₂ = some ([], b₃) →
      sourceOf inner depth node anchors b = some (.literal (toString m), b₃)) ∧
    (∀ depth node anchors b f b₁ name b₂ b₃,
      fields (.of ["name", "default"]) depth node anchors b = some (f, b₁) →
      f.required "name" text anchors b₁ = some (name, b₂) →
      f.HasPlain "default" (toString n.value) anchors b₂ b₃ →
      environmentSource depth node anchors b = some (.environment name (some (toString m)), b₃)) ∧
    ∀ depth node anchors b f b₁ name b₂ required b₃ b₄,
      fields (.of ["name", "required", "default"]) depth node anchors b = some (f, b₁) →
      f.required "name" text anchors b₁ = some (name, b₂) →
      f.default "required" false flag anchors b₂ = some (required, b₃) →
      f.HasPlain "default" (toString n.value) anchors b₃ b₄ →
      parameter depth node anchors b = some (⟨name, required, some (toString m)⟩, b₄) := by
  obtain ⟨m, hm, hsigned, hbeyond⟩ := exists_integerText_eq n
  refine ⟨m, hsigned, hbeyond, ?_, ?_, ?_⟩
  · intro inner depth node anchors b f b₁ b₂ b₃ hf h hothers
    rw [← hm]
    exact sourceOf_integer hf h hothers
  · intro depth node anchors b f b₁ name b₂ b₃ hf hname h
    rw [← hm]
    exact environmentSource_integer hf hname h
  · intro depth node anchors b f b₁ name b₂ required b₃ b₄ hf hname hrequired h
    rw [← hm]
    exact parameter_integer hf hname hrequired h

def plainEntry (key s : String) : Node × Node := (.scalar none true key, .scalar none true s)

theorem inRange_eighty : (-0x8000000000000000 : Int) ≤ 80 ∧ (80 : Int) < 0x10000000000000000 := by
  decide

def eighty : Whole := ⟨80, inRange_eighty⟩

theorem integer_default_eighty :
    sourceOf variableSource 1 (.mapping none [plainEntry "default" "80"]) [] 0 =
      some (.literal "80", 0) ∧
    environmentSource 1 (.mapping none [plainEntry "name" "PORT", plainEntry "default" "80"]) [] 0 =
      some (.environment "PORT" (some "80"), 0) ∧
    parameter 1 (.mapping none [plainEntry "name" "port", plainEntry "default" "80"]) [] 0 =
      some (⟨"port", false, some "80"⟩, 0) := by
  obtain ⟨m, hm, -, hsource, henvironment, hparameter⟩ := integer_default eighty
  obtain rfl := hm (by decide)
  refine ⟨?_, ?_, ?_⟩
  · exact hsource _ _ _ _ _ _ _ _ _ rfl ⟨_, rfl, rfl⟩ rfl
  · exact henvironment _ _ _ _ _ _ _ _ _ rfl rfl ⟨_, rfl, rfl⟩
  · exact hparameter _ _ _ _ _ _ _ _ _ _ _ rfl rfl rfl ⟨_, rfl, rfl⟩

theorem read_of_documents {decode : Decoder α} {yaml : String} {node : Node} {a : α}
    (hyaml : Yaml.documents yaml = [some ⟨some node⟩])
    (h : ∀ anchors b, decode Yaml.maxDepth node anchors b = some (a, b)) : read decode yaml = some a := by
  rw [read, hyaml]
  show Option.map Prod.fst (decode Yaml.maxDepth node (Node.anchors [] node) (100 * node.size)) = _
  rw [h]
  rfl

theorem documents_large : Yaml.documents ("default: " ++ toString (0x8000000000000000 : Int)) =
    [some ⟨some (.mapping none [plainEntry "default" (toString (0x8000000000000000 : Int))])⟩] := by
  cbv

/-- `default: 9223372036854775808` does not stand for its text. -/
theorem large_default_rounded : ¬ ∀ n : Whole,
    read source ("default: " ++ toString n.value) = some (.literal (toString n.value)) := by
  intro h
  obtain ⟨n, hn⟩ : ∃ n : Whole, n.value = 0x8000000000000000 := ⟨⟨_, by decide⟩, rfl⟩
  have hsource : ∀ anchors b, source Yaml.maxDepth
      (.mapping none [plainEntry "default" (toString n.value)]) anchors b =
        some (.literal (integerText n), b) :=
    fun _ _ => sourceOf_integer rfl ⟨_, rfl, rfl⟩ rfl
  have hread := h n
  rw [read_of_documents (hn ▸ documents_large) hsource] at hread
  have hkept : integerText n = toString n.value := Source.literal.inj (Option.some.inj hread)
  -- the text ends in two zeros, which that of `2 ^ 63` does not
  obtain ⟨m, hm, hdvd, -⟩ := integerText_of_beyond (Int.le_of_eq hn.symm)
  have heq : (m : Int) = n.value := eq_of_toString_eq (hm.symm.trans hkept)
  omega

end FieldPatch.Config

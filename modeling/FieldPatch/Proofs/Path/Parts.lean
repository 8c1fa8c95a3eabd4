import FieldPatch.Path

/-! The parts of joined paths. A path that is not absolute and has no stretch that leads up
only adds parts to the directory it is joined to. -/

namespace FieldPatch.Path

theorem split_ne_nil (cs : List Char) : split cs ≠ [] := by
  cases cs with
  | nil => simp [split]
  | cons c cs =>
    unfold split
    split
    · simp
    · split <;> simp

theorem split_cons_of_ne {c : Char} (hc : c ≠ '/') {cs s : List Char} {more : List (List Char)}
    (h : split cs = s :: more) : split (c :: cs) = (c :: s) :: more := by
  simp [split, hc, h]

theorem split_append (cs ds : List Char) : split (cs ++ '/' :: ds) = split cs ++ split ds := by
  induction cs with
  | nil => rfl
  | cons c cs ih =>
    by_cases hc : c = '/'
    · subst hc
      simp only [List.cons_append, split, beq_self_eq_true, if_true, ih]
    · obtain ⟨s, more, hs⟩ := List.exists_cons_of_ne_nil (split_ne_nil cs)
      have hsum : split (cs ++ '/' :: ds) = s :: (more ++ split ds) := by rw [ih, hs]; rfl
      rw [List.cons_append, split_cons_of_ne hc hsum, split_cons_of_ne hc hs]
      rfl

theorem split_of_notMem {cs : List Char} (h : '/' ∉ cs) : split cs = [cs] := by
  induction cs with
  | nil => rfl
  | cons c cs ih =>
    simp only [List.mem_cons, not_or] at h
    exact split_cons_of_ne (Ne.symm h.1) (ih h.2)

theorem slash_notMem_of_mem_split {cs s : List Char} (h : s ∈ split cs) : '/' ∉ s := by
  induction cs generalizing s with
  | nil =>
    obtain rfl : s = [] := by simpa [split] using h
    simp
  | cons c cs ih =>
    by_cases hc : c = '/'
    · subst hc
      rcases List.mem_cons.mp (show s ∈ [] :: split cs from h) with rfl | hs
      · simp
      · exact ih hs
    · obtain ⟨s', more, hs'⟩ := List.exists_cons_of_ne_nil (split_ne_nil cs)
      rw [split_cons_of_ne hc hs'] at h
      rcases List.mem_cons.mp h with rfl | hs
      · have hh := ih (s := s') (by simp [hs'])
        simp [hh, Ne.symm hc]
      · exact ih (by simp [hs', hs])

theorem split_eq_singleton_nil {cs : List Char} (h : split cs = [[]]) : cs = [] := by
  cases cs with
  | nil => rfl
  | cons c cs =>
    obtain ⟨s, more, hs⟩ := List.exists_cons_of_ne_nil (split_ne_nil cs)
    by_cases hc : c = '/'
    · subst hc
      exact absurd (List.cons.inj (show [] :: split cs = [[]] from h)).2 (split_ne_nil cs)
    · rw [split_cons_of_ne hc hs] at h
      cases h

theorem isAbsolute_iff {path : String} : isAbsolute path = true ↔ ∃ cs, path.toList = '/' :: cs := by
  have hs : isAbsolute path = true ↔ ['/'] <+: path.toList := by
    simp [isAbsolute, String.startsWith_string_iff]
  rw [hs]
  exact ⟨fun ⟨cs, h⟩ => ⟨cs, h.symm⟩, fun ⟨cs, h⟩ => ⟨cs, h.symm⟩⟩

theorem hasSlash_of_isAbsolute {path : String} (h : isAbsolute path = true) :
    hasSlash path = true := by
  obtain ⟨cs, hcs⟩ := isAbsolute_iff.mp h
  simp [hasSlash, hcs]

theorem isAbsolute_iff_split {path : String} {s : List Char} {more : List (List Char)}
    (h : split path.toList = s :: more) : isAbsolute path = true ↔ s = [] ∧ more ≠ [] := by
  rw [isAbsolute_iff]
  cases hp : path.toList with
  | nil =>
    rw [hp] at h
    obtain ⟨rfl, rfl⟩ : [] = s ∧ [] = more := List.cons.inj h
    simp
  | cons c cs =>
    rw [hp] at h
    by_cases hc : c = '/'
    · subst hc
      obtain ⟨rfl, rfl⟩ : [] = s ∧ split cs = more := List.cons.inj h
      simp [split_ne_nil]
    · obtain ⟨s', more', hs'⟩ := List.exists_cons_of_ne_nil (split_ne_nil cs)
      rw [split_cons_of_ne hc hs'] at h
      obtain ⟨rfl, rfl⟩ := List.cons.inj h
      simp [hc]

theorem part?_ne_root (s : List Char) : part? s ≠ some .root := by
  unfold part?
  split
  · simp
  · split <;> simp

theorem part?_eq_up_iff {s : List Char} : part? s = some .up ↔ s = ['.', '.'] := by
  unfold part?
  split
  · next h =>
    simp only [reduceCtorEq, false_iff]
    rintro rfl
    simp at h
  · split <;> simp_all

theorem part?_eq_name {s : List Char} {name : String} (h : part? s = some (.name name)) :
    String.ofList s = name ∧ s ≠ ['.', '.'] := by
  unfold part? at h
  split at h
  · cases h
  · split at h
    · cases h
    · next hup => exact ⟨by simpa using h, by simpa using hup⟩

/-- The part that the first stretch of a path stands for; an empty one is the root, if others
follow it. -/
def firstPart? (s : List Char) (more : List (List Char)) : Option Part :=
  if s = [] then if more = [] then none else some .root
  else if s = ['.'] then some .here
  else part? s

theorem parts_eq {path : String} {s : List Char} {more : List (List Char)}
    (h : split path.toList = s :: more) :
    parts path = (firstPart? s more).toList ++ more.filterMap part? := by
  unfold parts
  split
  · next cs hcs =>
    rw [hcs] at h
    obtain ⟨rfl, rfl⟩ : [] = s ∧ split cs = more := List.cons.inj h
    simp [firstPart?, split_ne_nil]
  · next hcs =>
    rw [h]
    cases hs : path.toList with
    | nil =>
      rw [hs] at h
      obtain ⟨rfl, rfl⟩ : [] = s ∧ [] = more := List.cons.inj h
      rfl
    | cons c cs =>
      have hc : c ≠ '/' := by
        rintro rfl
        exact hcs cs hs
      obtain ⟨s', more', hs'⟩ := List.exists_cons_of_ne_nil (split_ne_nil cs)
      rw [hs, split_cons_of_ne hc hs'] at h
      obtain ⟨rfl, rfl⟩ := List.cons.inj h
      split
      · next hdot =>
        obtain ⟨⟨rfl, rfl⟩, rfl⟩ : (c = '.' ∧ s' = []) ∧ more' = _ := by simpa using hdot
        rfl
      · next hdot =>
        have hdot' : c :: s' ≠ ['.'] := fun he => hdot more' (by rw [he])
        simp only [firstPart?, hdot', if_false, reduceCtorEq, List.filterMap_cons]
        cases part? (c :: s') <;> rfl

theorem firstPart?_congr {s : List Char} {more more' : List (List Char)}
    (h : s = [] → (more = [] ↔ more' = [])) : firstPart? s more = firstPart? s more' := by
  unfold firstPart?
  split
  · next hs => simp only [h hs]
  · rfl

theorem firstPart?_eq_up_iff {s : List Char} {more : List (List Char)} :
    firstPart? s more = some .up ↔ s = ['.', '.'] := by
  unfold firstPart?
  split
  · next h => split <;> simp [h]
  · split
    · next h => simp [h]
    · exact part?_eq_up_iff

theorem firstPart?_eq_root_iff {s : List Char} {more : List (List Char)} :
    firstPart? s more = some .root ↔ s = [] ∧ more ≠ [] := by
  unfold firstPart?
  split
  · next h => split <;> simp_all
  · next h =>
    split
    · simp [h]
    · simp [h, part?_ne_root]

theorem firstPart?_eq_name {s : List Char} {more : List (List Char)} {name : String}
    (h : firstPart? s more = some (.name name)) : part? s = some (.name name) := by
  unfold firstPart? at h
  split at h
  · split at h <;> cases h
  · split at h
    · cases h
    · exact h

theorem up_mem_parts_iff {path : String} :
    Part.up ∈ parts path ↔ ['.', '.'] ∈ split path.toList := by
  obtain ⟨s, more, hs⟩ := List.exists_cons_of_ne_nil (split_ne_nil path.toList)
  rw [parts_eq hs, hs]
  simp only [List.mem_append, Option.mem_toList, firstPart?_eq_up_iff, List.mem_filterMap,
    part?_eq_up_iff, exists_eq_right, List.mem_cons, @eq_comm _ s]

theorem root_mem_parts_iff {path : String} : Part.root ∈ parts path ↔ isAbsolute path = true := by
  obtain ⟨s, more, hs⟩ := List.exists_cons_of_ne_nil (split_ne_nil path.toList)
  rw [parts_eq hs, isAbsolute_iff_split hs]
  simp only [List.mem_append, Option.mem_toList, firstPart?_eq_root_iff, List.mem_filterMap,
    part?_ne_root, and_false, exists_false, or_false]

/-- Whether a path may lead out of the directory it is joined to. -/
def Escapes (path : String) : Prop :=
  isAbsolute path = true ∨ ['.', '.'] ∈ split path.toList

/-- A part that goes down or stays. -/
def Part.Inner (p : Part) : Prop := p = .here ∨ ∃ s, p = .name s

theorem Part.inner_iff {p : Part} : p.Inner ↔ p ≠ .root ∧ p ≠ .up := by
  cases p <;> simp [Inner]

theorem inner_parts_iff {path : String} : (∀ p ∈ parts path, p.Inner) ↔ ¬ Escapes path := by
  rw [Escapes, ← root_mem_parts_iff, ← up_mem_parts_iff, not_or]
  simp only [Part.inner_iff]
  constructor
  · exact fun h => ⟨fun hr => (h _ hr).1 rfl, fun hu => (h _ hu).2 rfl⟩
  · rintro ⟨hr, hu⟩ p hp
    exact ⟨fun he => hr (he ▸ hp), fun he => hu (he ▸ hp)⟩

theorem staysBelow_iff {path : String} : staysBelow path = true ↔ ¬ Escapes path := by
  simp only [← inner_parts_iff, Part.inner_iff, staysBelow, List.all_eq_true, Bool.and_eq_true,
    bne_iff_ne]

theorem staysBelow_eq_false_iff {path : String} : staysBelow path = false ↔ Escapes path := by
  rw [← Bool.not_eq_true, staysBelow_iff, Classical.not_not]

theorem name_mem_parts {path name : String} (h : Part.name name ∈ parts path) :
    ∃ s ∈ split path.toList, part? s = some (.name name) := by
  obtain ⟨s, more, hs⟩ := List.exists_cons_of_ne_nil (split_ne_nil path.toList)
  rw [parts_eq hs] at h
  rw [hs]
  rcases List.mem_append.mp h with hm | hm
  · exact ⟨s, by simp, firstPart?_eq_name (by simpa using hm)⟩
  · obtain ⟨s', hs', hp⟩ := List.mem_filterMap.mp hm
    exact ⟨s', by simp [hs'], hp⟩

/-- A name that is part of a path is no path that leads anywhere else. -/
theorem not_escapes_of_mem_parts {path name : String} (h : Part.name name ∈ parts path) :
    ¬ Escapes name := by
  obtain ⟨s, hs, hp⟩ := name_mem_parts h
  obtain ⟨rfl, hup⟩ := part?_eq_name hp
  have hslash := slash_notMem_of_mem_split hs
  rw [Escapes, isAbsolute_iff, String.toList_ofList, split_of_notMem hslash]
  rintro (⟨cs, rfl⟩ | hm)
  · simp at hslash
  · obtain rfl : ['.', '.'] = s := by simpa using hm
    exact hup rfl

theorem name_mem_of_lastName? {ps : List Part} {name : String} (h : lastName? ps = some name) :
    Part.name name ∈ ps := by
  fun_induction lastName? ps with
  | case1 => cases h
  | case2 s => simpa using h.symm
  | case3 => cases h
  | case4 p q ps ih => exact List.mem_cons_of_mem p (ih h)

theorem not_escapes_directoryName? (path : String) : ¬ Escapes ((directoryName? path).getD "") := by
  cases h : directoryName? path with
  | none => simp [Escapes, isAbsolute_iff, split]
  | some name => exact not_escapes_of_mem_parts (List.dropLast_subset _ (name_mem_of_lastName? h))

/-- The stretches of a joined path: those of the directory, of which an empty last one does not
count, and those of what it is joined to. -/
theorem split_join {directory path : String} (hd : directory ≠ "") (hp : isAbsolute path = false) :
    ∃ base, base ≠ [] ∧ split (join directory path).toList = base ++ split path.toList ∧
      (split directory.toList = base ∧ base ≠ [[]] ∨ split directory.toList = base ++ [[]]) := by
  have hempty : directory.isEmpty = false := by simpa using hd
  unfold join
  simp only [hp, hempty, Bool.or_self, Bool.false_eq_true, if_false]
  split
  · next he =>
    obtain ⟨ds, hds⟩ : ∃ ds, ds ++ ['/'] = directory.toList := by
      simpa [← String.endsWith_toSlice, List.IsSuffix] using he
    refine ⟨split ds, split_ne_nil ds, ?_, .inr ?_⟩
    · rw [String.toList_append, ← hds, List.append_assoc]
      exact split_append ds path.toList
    · rw [← hds]
      exact split_append ds []
  · have hne : split directory.toList ≠ [[]] :=
      fun he => hd (by simpa using split_eq_singleton_nil he)
    refine ⟨split directory.toList, split_ne_nil _, ?_, .inl ⟨rfl, hne⟩⟩
    rw [String.toList_append, String.toList_append, List.append_assoc]
    exact split_append directory.toList path.toList

theorem join_ne_empty {directory path : String} (hd : directory ≠ "")
    (hp : isAbsolute path = false) : join directory path ≠ "" := by
  obtain ⟨base, hb, hj, -⟩ := split_join hd hp
  intro he
  have hlen := congrArg List.length hj
  rw [he, List.length_append] at hlen
  have hbase := List.length_pos_iff.mpr hb
  have hpath := List.length_pos_iff.mpr (split_ne_nil path.toList)
  simp [split] at hlen
  omega

theorem isAbsolute_join {directory path : String} (hd : directory ≠ "")
    (hp : isAbsolute path = false) : isAbsolute (join directory path) = isAbsolute directory := by
  obtain ⟨base, hb, hj, hdir⟩ := split_join hd hp
  obtain ⟨s, more, rfl⟩ := List.exists_cons_of_ne_nil hb
  rw [List.cons_append] at hj hdir
  rw [Bool.eq_iff_iff, isAbsolute_iff_split hj]
  rcases hdir with ⟨hdir, hne⟩ | hdir
  · rw [isAbsolute_iff_split hdir]
    simpa [split_ne_nil] using hne
  · rw [isAbsolute_iff_split hdir]
    simp [split_ne_nil]

/-- What is not absolute adds parts to the directory it is joined to, and none of them is a root. -/
theorem parts_join_of_relative {directory path : String} (hp : isAbsolute path = false) :
    ∃ below, parts (join directory path) = parts directory ++ below ∧ .root ∉ below ∧
      (.up ∈ below ↔ ['.', '.'] ∈ split path.toList) := by
  by_cases hd : directory = ""
  · subst hd
    refine ⟨parts path, ?_, by simp [root_mem_parts_iff, hp], up_mem_parts_iff⟩
    simp [join]
    rfl
  · obtain ⟨base, hb, hj, hdir⟩ := split_join hd hp
    obtain ⟨s, more, rfl⟩ := List.exists_cons_of_ne_nil hb
    refine ⟨(split path.toList).filterMap part?, ?_, by simp [part?_ne_root],
      by simp [part?_eq_up_iff]⟩
    have hlast : ([[]] : List (List Char)).filterMap part? = [] := rfl
    have hsplit := split_ne_nil path.toList
    rw [List.cons_append] at hj hdir
    rw [parts_eq hj]
    rcases hdir with ⟨hdir, hne⟩ | hdir
    · have hfirst : firstPart? s (more ++ split path.toList) = firstPart? s more :=
        firstPart?_congr fun hs => by simpa [hs, hsplit] using hne
      rw [parts_eq hdir, hfirst, List.filterMap_append, List.append_assoc]
    · have hfirst : firstPart? s (more ++ split path.toList) = firstPart? s (more ++ [[]]) :=
        firstPart?_congr fun _ => by simp [hsplit]
      rw [parts_eq hdir, hfirst, List.filterMap_append, List.filterMap_append, hlast,
        List.append_nil, List.append_assoc]

/-- What does not escape adds inner parts to the directory it is joined to. -/
theorem parts_join {directory path : String} (hp : ¬ Escapes path) :
    ∃ below, parts (join directory path) = parts directory ++ below ∧ ∀ p ∈ below, p.Inner := by
  obtain ⟨habs, hup⟩ := not_or.mp hp
  obtain ⟨below, hparts, hroot, hiff⟩ := @parts_join_of_relative directory path (by simpa using habs)
  refine ⟨below, hparts, fun p hb => Part.inner_iff.mpr ⟨?_, ?_⟩⟩
  · rintro rfl
    exact hroot hb
  · rintro rfl
    exact hup (hiff.mp hb)

end FieldPatch.Path

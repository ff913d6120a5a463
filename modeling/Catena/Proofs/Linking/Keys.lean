import Catena.Proofs.Linking.Steps

/-!
# The keys of files

The public members of a file are kept under a key: the name of the file if it was read for the user,
the namespace that it defines if it was read as a library module. An import looks under a key of its
own, made from what is written. The two are the same for the file that the import leads to
(`LeadsTo.fileKey_eq`), but a key says nothing of the directory of a file.
-/

namespace Catena

/-! ## Endings -/

theorem hasEnding_iff {ending s : String} : hasEnding ending s ↔ ∃ t, s = t ++ ending := by
  unfold hasEnding
  rw [List.isSuffixOf_iff_suffix]
  constructor
  · rintro ⟨cs, hcs⟩
    exact ⟨String.ofList cs, by simp [← String.toList_inj, hcs]⟩
  · rintro ⟨t, rfl⟩
    exact ⟨t.toList, by simp⟩

theorem hasEnding_append (t ending : String) : hasEnding ending (t ++ ending) :=
  hasEnding_iff.2 ⟨t, rfl⟩

@[simp] theorem dropEnding_append (t ending : String) : dropEnding ending (t ++ ending) = t := by
  unfold dropEnding
  rw [if_pos (hasEnding_append t ending)]
  simp

theorem dropEnding_append_self {ending s : String} (h : hasEnding ending s) :
    dropEnding ending s ++ ending = s := by
  obtain ⟨t, rfl⟩ := hasEnding_iff.1 h
  rw [dropEnding_append]

/-- The ending of source files is kept by what stands after the last slash. -/
theorem hasEnding_afterSlash {s : String} (h : hasEnding sourceExtension s) :
    hasEnding sourceExtension (afterSlash s) := by
  rcases slashFree_or_concat s with hs | ⟨cs, b, hb, rfl⟩
  · rw [afterSlash_slashFree hs]
    exact h
  · rw [afterSlash_concat cs hb]
    unfold hasEnding at h ⊢
    rw [List.isSuffixOf_iff_suffix] at h ⊢
    rw [String.toList_ofList] at h ⊢
    -- the ending has no slash in it, so it starts after the last slash
    have slashless : '/' ∉ sourceExtension.toList := by decide
    rcases List.suffix_or_suffix_of_suffix h (List.suffix_append cs ('/' :: b)) with hshort | hlong
    · rcases List.suffix_cons_iff.1 hshort with hwhole | hb
      · exact absurd (hwhole ▸ List.mem_cons_self) slashless
      · exact hb
    · exact absurd (hlong.subset List.mem_cons_self) slashless

theorem ne_dots_of_hasEnding {s : String} (h : hasEnding sourceExtension s) :
    s ≠ "" ∧ s ≠ "." ∧ s ≠ ".." := by
  refine ⟨?_, ?_, ?_⟩
  · rintro rfl; exact absurd h (by decide)
  · rintro rfl; exact absurd h (by decide)
  · rintro rfl; exact absurd h (by decide)

/-- What stands after the last slash of a path below a directory is the name that was added. -/
theorem afterSlash_joinPath (directory : String) {name : String} (h : SlashFree name) :
    afterSlash (joinPath directory name) = name := by
  unfold joinPath
  split
  · next hdirectory =>
    rcases Bool.or_eq_true_iff.1 hdirectory with hempty | hslash
    · rw [of_decide_eq_true hempty, String.empty_append]
      exact afterSlash_slashFree h
    · obtain ⟨t, rfl⟩ := hasEnding_iff.1 hslash
      have : t ++ "/" ++ name = String.ofList (t.toList ++ '/' :: name.toList) := by
        simp [← String.toList_inj]
      rw [this, afterSlash_concat _ h, String.ofList_toList]
  · have : directory ++ "/" ++ name = String.ofList (directory.toList ++ '/' :: name.toList) := by
      simp [← String.toList_inj]
    rw [this, afterSlash_concat _ h, String.ofList_toList]

/-- The text of a path ends like the name of the file. -/
theorem hasEnding_text {p : Path} (h : hasEnding sourceExtension p.fileName) :
    hasEnding sourceExtension p.text := by
  rcases List.eq_nil_or_concat p with rfl | ⟨init, name, rfl⟩
  · exact absurd h (by decide)
  · have hname : Path.fileName (init ++ [name]) = name := by simp [Path.fileName]
    rw [List.concat_eq_append, hname, hasEnding_iff] at h
    obtain ⟨t, rfl⟩ := h
    rw [List.concat_eq_append, hasEnding_iff, Path.text]
    by_cases hinit : init = []
    · subst hinit
      exact ⟨"/" ++ t, by simp [String.append_assoc]⟩
    · rw [String.intercalate_append_of_ne_nil hinit (by simp), String.intercalate_singleton]
      exact ⟨"/" ++ (String.intercalate "/" init ++ "/" ++ t), by simp [String.append_assoc]⟩

/-- A text that is in no file is not taken for a source file. -/
theorem key_ofText_ne_text (name : String) (directory : Path) {p : Path}
    (h : hasEnding sourceExtension p.fileName) :
    (SourceUnit.ofText name directory).key ≠ p.text := by
  intro heq
  have hfile := hasEnding_text h
  have htext : hasEnding ">" (SourceUnit.ofText name directory).key := by
    rw [hasEnding_iff]
    show ∃ t, joinPath directory.text ("<" ++ name ++ ">") = t ++ ">"
    unfold joinPath
    split
    · exact ⟨directory.text ++ ("<" ++ name), by simp [String.append_assoc]⟩
    · exact ⟨directory.text ++ "/" ++ ("<" ++ name), by simp [String.append_assoc]⟩
  rw [heq] at htext
  unfold hasEnding at hfile htext
  rw [List.isSuffixOf_iff_suffix] at hfile htext
  rcases List.suffix_or_suffix_of_suffix hfile htext with hsuffix | hsuffix
  · exact absurd (List.isSuffixOf_iff_suffix.2 hsuffix) (by decide)
  · exact absurd (List.isSuffixOf_iff_suffix.2 hsuffix) (by decide)

namespace Linking

/-! ## Keys -/

/-- The key under which the public members of a file are kept. -/
def fileKey (i : Path × Origin) : String :=
  (SourceUnit.ofFile i.1 i.2).info.loaderKey

theorem fileKey_user {p : Path} (h : hasEnding sourceExtension p.fileName) :
    fileKey (p, .user) = p.fileName :=
  dropEnding_append_self h

theorem fileKey_internal {p : Path} {name : String} (h : p.fileName = name ++ sourceExtension) :
    fileKey (p, .internal) = name := by
  show dropEnding sourceExtension p.fileName = name
  rw [h, dropEnding_append]

variable {fs : FileSystem} {library : String} {unit : SourceUnit} {request : Import}

theorem loaderKey_external (h : request.isExternal) :
    request.loaderKey = afterSlash request.source := by
  unfold Import.loaderKey
  rw [if_pos h]
  rfl

theorem loaderKey_internal (h : ¬request.isExternal) : request.loaderKey = request.source := by
  unfold Import.loaderKey
  rw [if_neg h]

/-- The name of a library module's file is the namespace with the ending of source files. -/
theorem fileName_libraryPlace {p : Path} {name : String} (hname : SlashFree name)
    (h : fs.canonical fs.workingDirectory (libraryPlace library name) = .ok p) :
    p.fileName = name ++ sourceExtension := by
  have slashless : SlashFree (name ++ sourceExtension) := by
    unfold SlashFree
    rw [String.toList_append, List.mem_append, not_or]
    exact ⟨hname, by decide⟩
  have last : afterSlash (libraryPlace library name) = name ++ sourceExtension :=
    afterSlash_joinPath library slashless
  rw [← last]
  refine FileSystem.fileName_canonical (ne_dots_of_hasEnding ?_) h
  rw [last]
  exact hasEnding_append name sourceExtension

theorem fileName_external {base p : Path} (hext : request.isExternal)
    (h : fs.canonical base request.source = .ok p) : p.fileName = request.loaderKey := by
  rw [loaderKey_external hext]
  exact FileSystem.fileName_canonical (ne_dots_of_hasEnding (hasEnding_afterSlash hext)) h

theorem hasEnding_loaderKey (h : request.isExternal) :
    hasEnding sourceExtension request.loaderKey := by
  rw [loaderKey_external h]
  exact hasEnding_afterSlash h

/-- An import by path leads to where its path does. -/
theorem LeadsTo.canonical_external {j : Path × Origin} (h : LeadsTo fs library unit request j)
    (hext : request.isExternal) : fs.canonical unit.directory request.source = .ok j.1 := by
  cases h with
  | byPath _ found => exact found
  | asModule bare => exact absurd hext bare

/-- **An import looks under the key of the file that it leads to.** -/
theorem LeadsTo.fileKey_eq {j : Path × Origin} (h : LeadsTo fs library unit request j)
    (hproper : request.Proper) : fileKey j = request.loaderKey := by
  cases h with
  | byPath external found =>
    have name := fileName_external external found
    rw [fileKey_user (name ▸ hasEnding_loaderKey external), name]
  | asModule bare _ _ found =>
    rw [fileKey_internal (fileName_libraryPlace (hproper.bare bare) found), loaderKey_internal bare]

/-- A key that ends like a source file is that of a file read for the user. -/
theorem LeadsTo.not_hasEnding_fileKey {p : Path} (hproper : request.Proper)
    (h : LeadsTo fs library unit request (p, .internal)) :
    ¬hasEnding sourceExtension (fileKey (p, .internal)) := by
  rw [h.fileKey_eq hproper]
  cases h with
  | asModule bare => rw [loaderKey_internal bare]; exact bare

/-- The files under the name of a source file are those of that name that were read for the user. -/
theorem LeadsTo.fileKey_eq_iff {j : Path × Origin} (h : LeadsTo fs library unit request j)
    (hproper : request.Proper) {key : String} (hkey : hasEnding sourceExtension key) :
    fileKey j = key ↔ j.2 = .user ∧ j.1.fileName = key := by
  obtain ⟨p, origin⟩ := j
  cases origin with
  | user =>
    cases h with
    | byPath external found =>
      have name := fileName_external external found
      rw [fileKey_user (name ▸ hasEnding_loaderKey external)]
      simp
  | internal =>
    constructor
    · rintro rfl
      exact absurd hkey (h.not_hasEnding_fileKey hproper)
    · rintro ⟨horigin, -⟩
      cases horigin

/-- The file of a library module stands where its own namespace would be looked for. -/
theorem LeadsTo.canonical_own {p : Path} (hproper : request.Proper)
    (h : LeadsTo fs library unit request (p, .internal)) :
    fs.canonical fs.workingDirectory
      (libraryPlace library (SourceUnit.ofFile p .internal).name) = .ok p := by
  cases h with
  | asModule bare _ _ found =>
    have name : (SourceUnit.ofFile p .internal).name = request.source := by
      show dropEnding sourceExtension p.fileName = request.source
      rw [fileName_libraryPlace (hproper.bare bare) found, dropEnding_append]
    rw [name]
    exact found

end Linking

end Catena

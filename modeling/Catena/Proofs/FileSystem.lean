import Catena.FileSystem

/-!
# Canonical paths

Following a path only ever adds components that are not empty and hold no slash, so a canonical path
is `Proper` if the directory that it is seen from is. Proper paths are told apart by their text
(`Path.Proper.text_inj`), and the file at a canonical path has the name that was written last
(`FileSystem.fileName_canonical`).
-/

namespace Catena

/-! ## Splitting at slashes -/

/-- A text without a slash. -/
def SlashFree (s : String) : Prop :=
  '/' ∉ s.toList

@[simp] theorem splitStep_slash (parts : List String) : splitStep '/' parts = "" :: parts := rfl

theorem splitStep_of_ne {c : Char} (h : c ≠ '/') (part : String) (rest : List String) :
    splitStep c (part :: rest) = (c.toString ++ part) :: rest := by
  rw [splitStep, if_neg h]

/-- Characters other than slashes join the component that follows them. -/
theorem foldr_splitStep {cs : List Char} (h : '/' ∉ cs) (part : String) (rest : List String) :
    cs.foldr splitStep (part :: rest) = (String.ofList cs ++ part) :: rest := by
  induction cs with
  | nil => simp
  | cons c cs ih =>
    obtain ⟨hc, hcs⟩ := not_or.1 (mt List.mem_cons.2 h)
    rw [List.foldr_cons, ih hcs, splitStep_of_ne (Ne.symm hc)]
    simp [← String.toList_inj]

/-- What stands before the first slash and what stands after it are split apart. -/
theorem splitPath_slash {cs : List Char} (h : '/' ∉ cs) (s : String) :
    splitPath (String.ofList (cs ++ '/' :: s.toList)) = String.ofList cs :: splitPath s := by
  unfold splitPath
  rw [String.toList_ofList, List.foldr_append, List.foldr_cons, splitStep_slash, foldr_splitStep h]
  simp

theorem splitPath_of_slashFree {s : String} (h : SlashFree s) : splitPath s = [s] := by
  unfold splitPath
  rw [foldr_splitStep h]
  simp

theorem slashFree_of_mem_splitPath {s part : String} (h : part ∈ splitPath s) :
    SlashFree part := by
  unfold splitPath at h
  generalize s.toList = cs at h
  induction cs generalizing part with
  | nil =>
    rw [List.mem_singleton.1 h]
    simp [SlashFree]
  | cons c cs ih =>
    rw [List.foldr_cons] at h
    generalize cs.foldr splitStep [""] = parts at h ih
    by_cases hc : c = '/'
    · subst hc
      rcases List.mem_cons.1 h with rfl | h
      · simp [SlashFree]
      · exact ih h
    · cases parts with
      | nil =>
        rw [splitStep, if_neg hc] at h
        rw [List.mem_singleton.1 h]
        simpa [SlashFree] using Ne.symm hc
      | cons first rest =>
        rw [splitStep_of_ne hc] at h
        rcases List.mem_cons.1 h with rfl | h
        · have hfirst : SlashFree first := ih List.mem_cons_self
          simpa [SlashFree] using ⟨Ne.symm hc, hfirst⟩
        · exact ih (List.mem_cons_of_mem _ h)

theorem splitStep_append {c : Char} {parts : List String} (h : parts ≠ []) (more : List String) :
    splitStep c (parts ++ more) = splitStep c parts ++ more := by
  cases parts with
  | nil => exact absurd rfl h
  | cons part rest =>
    by_cases hc : c = '/'
    · subst hc; rfl
    · rw [List.cons_append, splitStep_of_ne hc, splitStep_of_ne hc, List.cons_append]

theorem splitStep_ne_nil (c : Char) (parts : List String) : splitStep c parts ≠ [] := by
  unfold splitStep
  split
  · simp
  · split <;> simp

theorem foldr_splitStep_append (cs : List Char) (parts more : List String) (h : parts ≠ []) :
    cs.foldr splitStep (parts ++ more) = cs.foldr splitStep parts ++ more ∧
      cs.foldr splitStep parts ≠ [] := by
  induction cs with
  | nil => exact ⟨rfl, h⟩
  | cons c cs ih =>
    rw [List.foldr_cons, List.foldr_cons, ih.1, splitStep_append ih.2]
    exact ⟨rfl, splitStep_ne_nil _ _⟩

/-- What stands after the last slash is the last component. -/
theorem splitPath_concat (cs : List Char) {b : List Char} (h : '/' ∉ b) :
    splitPath (String.ofList (cs ++ '/' :: b)) =
      splitPath (String.ofList cs) ++ [String.ofList b] := by
  unfold splitPath
  rw [String.toList_ofList, String.toList_ofList, List.foldr_append, List.foldr_cons,
    splitStep_slash, foldr_splitStep h, String.append_empty]
  exact (foldr_splitStep_append cs [""] [String.ofList b] (by simp)).1

/-- The text after the last slash. -/
def afterSlash (s : String) : String :=
  String.ofList (s.toList.reverse.takeWhile (· != '/')).reverse

theorem takeWhile_reverse {b : List Char} (h : '/' ∉ b) (more : List Char) :
    (b.reverse ++ more).takeWhile (· != '/') = b.reverse ++ more.takeWhile (· != '/') := by
  refine List.takeWhile_append_of_pos fun c hc => ?_
  rw [bne_iff_ne]
  rintro rfl
  exact h (List.mem_reverse.1 hc)

theorem afterSlash_slashFree {s : String} (h : SlashFree s) : afterSlash s = s := by
  have all := takeWhile_reverse h []
  rw [List.append_nil] at all
  rw [afterSlash, all]
  simp

theorem afterSlash_concat (cs : List Char) {b : List Char} (h : '/' ∉ b) :
    afterSlash (String.ofList (cs ++ '/' :: b)) = String.ofList b := by
  rw [afterSlash, String.toList_ofList, List.reverse_append, List.reverse_cons,
    List.append_assoc, takeWhile_reverse h]
  simp

/-- A text has no slash in it, or it is what comes before and after its last slash. -/
theorem slashFree_or_concat (s : String) :
    SlashFree s ∨ ∃ cs b, '/' ∉ b ∧ s = String.ofList (cs ++ '/' :: b) := by
  by_cases h : '/' ∈ s.toList
  · obtain ⟨b, cs, heq, hb⟩ := List.eq_append_cons_of_mem (List.mem_reverse.2 h)
    refine Or.inr ⟨cs.reverse, b.reverse, mt List.mem_reverse.1 hb, ?_⟩
    have whole : s.toList = cs.reverse ++ '/' :: b.reverse := by
      rw [← List.reverse_reverse s.toList, heq]
      simp
    rw [← whole, String.ofList_toList]
  · exact Or.inl h

/-- Splitting ends with the text after the last slash. -/
theorem splitPath_eq_concat (s : String) : ∃ parts, splitPath s = parts ++ [afterSlash s] := by
  rcases slashFree_or_concat s with h | ⟨cs, b, hb, rfl⟩
  · exact ⟨[], by rw [splitPath_of_slashFree h, afterSlash_slashFree h]; rfl⟩
  · exact ⟨splitPath (String.ofList cs), by rw [splitPath_concat cs hb, afterSlash_concat cs hb]⟩

/-! ## Proper paths -/

namespace Path

/-- A path none of whose components is empty or holds a slash. -/
def Proper (p : Path) : Prop :=
  ∀ part ∈ p, part ≠ "" ∧ SlashFree part

theorem proper_nil : Proper [] :=
  fun _ h => nomatch h

namespace Proper

theorem parent {p : Path} (h : p.Proper) : p.parent.Proper :=
  fun part hpart => h part (List.dropLast_subset p hpart)

theorem concat {p : Path} (h : p.Proper) {part : String} (hne : part ≠ "")
    (hslash : SlashFree part) : Proper (p ++ [part]) := by
  intro part' hmem
  rcases List.mem_append.1 hmem with hmem | hmem
  · exact h part' hmem
  · rw [List.mem_singleton.1 hmem]
    exact ⟨hne, hslash⟩

/-- Splitting undoes joining. -/
theorem splitPath_intercalate {p : Path} (h : p.Proper) (hne : p ≠ []) :
    splitPath (String.intercalate "/" p) = p := by
  induction p with
  | nil => exact absurd rfl hne
  | cons part rest ih =>
    obtain ⟨⟨-, hpart⟩, hrest⟩ := List.forall_mem_cons.1 h
    cases rest with
    | nil =>
      rw [String.intercalate_singleton]
      exact splitPath_of_slashFree hpart
    | cons next rest =>
      have joined : String.intercalate "/" (part :: next :: rest) =
          String.ofList (part.toList ++ '/' :: (String.intercalate "/" (next :: rest)).toList) := by
        simp [← String.toList_inj, String.intercalate_cons_cons]
      rw [joined, splitPath_slash hpart, ih hrest (by simp)]
      simp

theorem splitPath_text {p : Path} (h : p.Proper) :
    splitPath p.text = "" :: (if p = [] then [""] else p) := by
  have rooted : p.text = String.ofList ([] ++ '/' :: (String.intercalate "/" p).toList) := by
    simp [← String.toList_inj, text]
  rw [rooted, splitPath_slash (by simp)]
  split
  · next hp =>
    subst hp
    simp [splitPath]
  · next hp =>
    rw [h.splitPath_intercalate hp]

/-- **Proper paths are told apart by their text.** -/
theorem text_inj {p q : Path} (hp : p.Proper) (hq : q.Proper) (h : p.text = q.text) : p = q := by
  have same := congrArg splitPath h
  rw [hp.splitPath_text, hq.splitPath_text] at same
  -- the root is the only path whose text has an empty component at its end
  have empty : ∀ r : Path, r.Proper → r ≠ [""] := by
    rintro r hr rfl
    exact (hr "" List.mem_cons_self).1 rfl
  split at same <;> split at same
  · next hp' hq' => rw [hp', hq']
  · exact absurd (List.cons.inj same).2.symm (empty q hq)
  · exact absurd (List.cons.inj same).2 (empty p hp)
  · exact (List.cons.inj same).2

end Proper

end Path

/-! ## Following a path -/

namespace FileSystem

variable {fs : FileSystem}

theorem follow_proper {p q : Path} {parts : List String} (hparts : ∀ part ∈ parts, SlashFree part)
    (hp : p.Proper) (h : fs.follow p parts = .ok q) : q.Proper := by
  fun_induction FileSystem.follow fs p parts with
  | case1 p => cases h; exact hp
  | case2 => cases h
  | case3 => cases h
  | case4 p part rest _ _ ih => exact ih (List.forall_mem_cons.1 hparts).2 hp h
  | case5 p rest _ _ ih => exact ih (List.forall_mem_cons.1 hparts).2 hp.parent h
  | case6 => cases h
  | case7 p part rest _ hempty _ _ _ ih =>
    obtain ⟨hpart, hrest⟩ := List.forall_mem_cons.1 hparts
    have hne : part ≠ "" := fun he => hempty (by simp [he])
    exact ih hrest (hp.concat hne hpart) h
  | case8 => cases h

/-- A path that leads somewhere, seen from a proper directory, leads to a proper path. -/
theorem canonical_proper {base q : Path} {written : String} (hbase : base.Proper)
    (h : fs.canonical base written = .ok q) : q.Proper := by
  unfold canonical at h
  split at h
  · cases h
  split at h
  · cases h
  · refine follow_proper (fun part => slashFree_of_mem_splitPath) ?_ h
    unfold startOf
    split
    · exact Path.proper_nil
    · exact hbase

/-- Following a path whose last component is a name leads to a path that ends with it. -/
theorem fileName_follow {p q : Path} {parts : List String} {part : String}
    (hname : part ≠ "" ∧ part ≠ "." ∧ part ≠ "..")
    (h : fs.follow p (parts ++ [part]) = .ok q) : q.fileName = part := by
  induction parts generalizing p with
  | nil =>
    rw [List.nil_append, follow] at h
    split at h
    · cases h
    · cases h
    · rw [if_neg (by simp [hname.1, hname.2.1]), if_neg hname.2.2] at h
      split at h
      · cases h
      split at h
      · cases h
        simp [Path.fileName]
      · cases h
  | cons first rest ih =>
    rw [List.cons_append, follow] at h
    split at h
    · cases h
    · cases h
    · split at h
      · exact ih h
      split at h
      · exact ih h
      split at h
      · cases h
      split at h
      · exact ih h
      · cases h

/-- The file that a written path leads to has the name that was written last. -/
theorem fileName_canonical {base q : Path} {written : String}
    (hname : afterSlash written ≠ "" ∧ afterSlash written ≠ "." ∧ afterSlash written ≠ "..")
    (h : fs.canonical base written = .ok q) : q.fileName = afterSlash written := by
  obtain ⟨parts, hparts⟩ := splitPath_eq_concat written
  unfold canonical at h
  split at h
  · cases h
  split at h
  · cases h
  · rw [hparts] at h
    exact fileName_follow hname h

/-- A file that can be read is listed. -/
theorem mem_entries_of_read {p : Path} {source : String} (h : fs.read p = .ok source) :
    p ∈ fs.entries.map (·.1) := by
  unfold read entry? at h
  cases hlookup : fs.entries.lookup p with
  | some entry =>
    obtain ⟨l₁, l₂, heq, -⟩ := List.lookup_eq_some_iff.1 hlookup
    rw [heq]
    simp
  | none =>
    rw [hlookup] at h
    dsimp only at h
    split at h
    · next hentry =>
      split at hentry <;> cases hentry
    · cases h
    · cases h

end FileSystem

end Catena

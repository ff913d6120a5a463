import Catena.Text.Extender
import Catena.Text.JoiningTable

/-!
# Grapheme clusters

What a reader takes for one character can be several: a letter with its accents, a Hangul syllable
spelled out, a conjunct of consonants, a flag, a picture joined from pictures. Such a group is a
grapheme cluster. A text is cut into clusters from left to right: whether a character joins the
cluster before it depends on its class and on how that cluster ends.

Main statements: cutting loses nothing (`flatten_clusters`), and no cluster is empty
(`ne_nil_of_mem_clusters`).
-/

namespace Catena.Text

/-- How a character joins its neighbours. -/
inductive Joining
  | carriageReturn
  | lineFeed
  | control
  /-- An extender that neither links consonants nor keeps them apart. -/
  | extender
  /-- An extender that links two consonants to a conjunct. -/
  | linker
  /-- The extender that keeps two characters from being joined. -/
  | nonJoiner
  /-- The character that joins two pictures. -/
  | joiner
  | spacingMark
  | prepended
  /-- Half of a flag. -/
  | regional
  | leading
  | vowel
  | trailing
  /-- A Hangul syllable without a trailing consonant. -/
  | openSyllable
  /-- A Hangul syllable with a trailing consonant. -/
  | closedSyllable
  | consonant
  | pictograph
  | other
  deriving DecidableEq

namespace Joining

/-- The class of a Hangul syllable: every twenty-eighth has no trailing consonant. -/
def ofSyllable (code : Nat) : Joining :=
  if (code - 0xAC00) % 28 = 0 then openSyllable else closedSyllable

/-- The class of a character. Visible ASCII characters join nothing. -/
def ofChar (c : Char) : Joining :=
  if 0x20 ≤ c.toNat && c.toNat < 0x7F then other
  else if c = '\r' then carriageReturn
  else if c = '\n' then lineFeed
  else if inRanges controlRanges c then control
  else if c.toNat = 0x200C then nonJoiner
  else if c.toNat = 0x200D then joiner
  else if inRanges linkerRanges c then linker
  else if isExtender c || inRanges [(0x1F3FB, 0x1F3FF)] c then extender
  else if inRanges spacingMarkRanges c then spacingMark
  else if inRanges prependedRanges c then prepended
  else if inRanges [(0x1F1E6, 0x1F1FF)] c then regional
  else if inRanges leadingRanges c then leading
  else if inRanges vowelRanges c then vowel
  else if inRanges trailingRanges c then trailing
  else if inRanges [(0xAC00, 0xD7A3)] c then ofSyllable c.toNat
  else if inRanges consonantRanges c then consonant
  else if inRanges pictographRanges c then pictograph
  else other

/-- Whether a character of this class is a cluster of its own. -/
def standsAlone : Joining → Bool
  | carriageReturn | lineFeed | control => true
  | _ => false

/-- Whether a character of this class joins whatever visible character it follows. -/
def clings : Joining → Bool
  | extender | linker | nonJoiner | joiner | spacingMark => true
  | _ => false

/-- Whether two classes stand side by side in one Hangul syllable. -/
def sharesSyllable : Joining → Joining → Bool
  | leading, leading | leading, vowel | leading, openSyllable | leading, closedSyllable => true
  | openSyllable, vowel | openSyllable, trailing | vowel, vowel | vowel, trailing => true
  | closedSyllable, trailing | trailing, trailing => true
  | _, _ => false

end Joining

/-- Whether text, read backwards, ends in a consonant that is linked to what follows: after it stand
only extenders and joiners, and among them a linker. `seen` says whether one has been met. -/
def endsLinked (seen : Bool) : List Char → Bool
  | [] => false
  | c :: before =>
    match Joining.ofChar c with
    | .linker => endsLinked true before
    | .extender | .joiner => endsLinked seen before
    | .consonant => seen
    | _ => false

/-- Whether text, read backwards, ends in a picture with any extenders after it. -/
def endsInPicture : List Char → Bool
  | [] => false
  | c :: before =>
    match Joining.ofChar c with
    | .extender | .linker | .nonJoiner => endsInPicture before
    | .pictograph => true
    | _ => false

/-- Whether text, read backwards, ends in an odd number of flag halves. -/
def endsInHalfFlag : List Char → Bool
  | [] => false
  | c :: before => Joining.ofChar c = .regional && !endsInHalfFlag before

/-- Whether the character `next` joins the cluster that ends in `last` after `before`, which is read
backwards. -/
def joins (last : Char) (before : List Char) (next : Char) : Bool :=
  match Joining.ofChar last, Joining.ofChar next with
  | .carriageReturn, .lineFeed => true
  | a, b =>
    if a.standsAlone || b.standsAlone then false
    else if a.sharesSyllable b || b.clings || a = .prepended then true
    else
      match b with
      | .consonant => endsLinked false (last :: before)
      | .pictograph => a = .joiner && endsInPicture before
      | .regional => endsInHalfFlag (last :: before)
      | _ => false

/-- The clusters of a text, where the first one has begun with `before`, read backwards, and then
`last`. -/
def clustersAfter (last : Char) (before : List Char) : List Char → List (List Char)
  | [] => [(last :: before).reverse]
  | next :: rest =>
    if joins last before next then clustersAfter next (last :: before) rest
    else (last :: before).reverse :: clustersAfter next [] rest

/-- The clusters of a text, in order. -/
def clusters : List Char → List (List Char)
  | [] => []
  | c :: rest => clustersAfter c [] rest

theorem flatten_clustersAfter (last : Char) (before rest : List Char) :
    (clustersAfter last before rest).flatten = (last :: before).reverse ++ rest := by
  induction rest generalizing last before with
  | nil => simp [clustersAfter]
  | cons next rest ih =>
    by_cases h : joins last before next <;> simp [clustersAfter, h, ih]

/-- Cutting a text into clusters loses nothing and moves nothing. -/
theorem flatten_clusters (cs : List Char) : (clusters cs).flatten = cs := by
  cases cs with
  | nil => rfl
  | cons c rest => simp [clusters, flatten_clustersAfter]

theorem ne_nil_of_mem_clustersAfter {cluster : List Char} {last : Char} {before rest : List Char}
    (h : cluster ∈ clustersAfter last before rest) : cluster ≠ [] := by
  induction rest generalizing last before with
  | nil => simp_all [clustersAfter]
  | cons next rest ih =>
    by_cases hj : joins last before next
    · exact ih (by simpa [clustersAfter, hj] using h)
    · rw [clustersAfter, if_neg hj] at h
      rcases List.mem_cons.1 h with rfl | h
      · simp
      · exact ih h

/-- A cluster has at least one character. -/
theorem ne_nil_of_mem_clusters {cluster cs : List Char} (h : cluster ∈ clusters cs) :
    cluster ≠ [] := by
  cases cs with
  | nil => simp [clusters] at h
  | cons c rest => exact ne_nil_of_mem_clustersAfter h

/-- The characters of a cluster come from the text. -/
theorem mem_of_mem_clusters {cluster cs : List Char} {c : Char} (h : cluster ∈ clusters cs)
    (hc : c ∈ cluster) : c ∈ cs := by
  rw [← flatten_clusters cs]
  exact List.mem_flatten.2 ⟨cluster, h, hc⟩

end Catena.Text

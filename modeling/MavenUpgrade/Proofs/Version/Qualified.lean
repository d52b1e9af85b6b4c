import Mathlib
import MavenUpgrade.Proofs.Version.Numeric

/-!
# Qualified versions

A numeric version with a hyphen and a word behind it is read as its numbers with a nested list that
holds the word alone, or as the numbers alone where the word stands for a plain release
(`Version.IsNumeric.parts_append_word`). Such versions of one release are in the order of their
words (`Version.compareText_of_isAlphabetic`), which is that of a ladder of known words with all
other words behind it (`Qualifier.compareWords`).
-/

namespace MavenUpgrade

/-! ## The order of words -/

namespace Qualifier

/-- The known words in ascending order, those of the same rank together. -/
def ladder : List (List String) :=
  [["alpha"], ["beta"], ["milestone"], ["rc", "cr"], ["snapshot"], ["ga", "final", "release"],
    ["sp"]]

/-- The rung of a word on the ladder; every word that is not on it stands behind its end. -/
def rung (word : String) : Nat :=
  ladder.findIdx (word ∈ ·)

/-- The order of two words in small letters: by their rungs, and by their texts where neither is on
the ladder. -/
def compareWords (p q : String) : Ordering :=
  (compare (rung p) (rung q)).then (if rung p = ladder.length then compare p q else .eq)

/-- A word that does not stand in front of a digit has its rung for a rank, and orders by its text
if it is not on the ladder. -/
theorem rank_key_ofWord (word : List Char) :
    (ofWord word false).rank = rung (String.ofList word) ∧
      (ofWord word false).key =
        if rung (String.ofList word) = ladder.length then String.ofList word else "" := by
  have hof : ofWord word false = (named.lookup word).getD (other (String.ofList word)) := rfl
  cases hl : named.lookup word with
  | none =>
    have hrung : rung (String.ofList word) = ladder.length := by
      apply List.findIdx_eq_length_of_false
      intro words hwords
      rw [decide_eq_false_iff_not]
      intro hmem
      -- every word of the ladder has a name
      have hnamed : ∀ words ∈ ladder, ∀ w ∈ words, w.toList ∈ named.map Prod.fst := by decide
      have hkey := hnamed words hwords _ hmem
      rw [String.toList_ofList] at hkey
      obtain ⟨entry, hentry, rfl⟩ := List.mem_map.mp hkey
      have hne := List.lookup_eq_none_iff.mp hl entry hentry
      simp at hne
    rw [hof, hl, hrung, if_pos rfl]
    exact ⟨rfl, rfl⟩
  | some q =>
    obtain ⟨before, after, hsplit, -⟩ := List.lookup_eq_some_iff.mp hl
    have hmem : (word, q) ∈ named := by
      rw [hsplit]
      exact List.mem_append_right _ List.mem_cons_self
    have hnamed : ∀ entry ∈ named, entry.2.rank = rung (String.ofList entry.1) ∧
        entry.2.key =
          if rung (String.ofList entry.1) = ladder.length then String.ofList entry.1 else "" := by
      decide
    rw [hof, hl]
    exact hnamed (word, q) hmem

/-- The qualifiers of two words are in the order of the words. -/
theorem compare_ofWord (p q : List Char) :
    compare (ofWord p false) (ofWord q false) =
      compareWords (String.ofList p) (String.ofList q) := by
  obtain ⟨hrankp, hkeyp⟩ := rank_key_ofWord p
  obtain ⟨hrankq, hkeyq⟩ := rank_key_ofWord q
  have hcompare : compare (ofWord p false) (ofWord q false) =
      (compare (ofWord p false).rank (ofWord q false).rank).then
        (compare (ofWord p false).key (ofWord q false).key) := rfl
  rw [hcompare, hrankp, hrankq, hkeyp, hkeyq]
  unfold compareWords
  cases hc : compare (rung (String.ofList p)) (rung (String.ofList q)) with
  | lt => rfl
  | gt => rfl
  | eq =>
    rw [← Nat.compare_eq_eq.mp hc]
    split <;> rfl

/-- Only its rank decides how a qualifier stands to a plain release. -/
theorem compare_release (q : Qualifier) : compare q .release = compare q.rank release.rank := by
  cases q <;> rfl

end Qualifier

/-! ## Reading a release with a word behind it -/

namespace Version

/-- A word of ASCII letters. -/
def IsAlphabetic (word : String) : Prop :=
  word ≠ "" ∧ ∀ c ∈ word.toList, c.isAlpha = true

instance (word : String) : Decidable (IsAlphabetic word) :=
  decidable_of_iff (word ≠ "" ∧ word.toList.all Char.isAlpha = true) (by simp [IsAlphabetic])

/-- The qualifier that a word stands for at the end of a version. -/
def qualifier (word : String) : Qualifier :=
  .ofWord word.toLower.toList false

/-- What a qualifier adds to the parts of a release: a nested list, or nothing if it stands for a
plain release. -/
def nested (q : Qualifier) : List Part :=
  if q = .release then [] else [.nest, .qualifier q]

theorem nested_eq_normalise (q : Qualifier) :
    Part.normalise [.nest, .qualifier q] = nested q := by
  by_cases hq : q = .release <;>
    simp [nested, Part.normalise, Part.prepend, Part.isNull, Part.listEnds, hq]

theorem listEnds_nested (q : Qualifier) : Part.listEnds (nested q) = true := by
  unfold nested
  split <;> rfl

/-- A letter is a visible ASCII character. -/
theorem visible_of_isAlpha {c : Char} (h : c.isAlpha = true) :
    0x20 < c.toNat ∧ c.toNat < 0x80 := by
  simp only [Char.isAlpha, Char.isUpper, Char.isLower, Bool.or_eq_true, Bool.and_eq_true,
    decide_eq_true_eq] at h
  rcases h with ⟨hlow, hhigh⟩ | ⟨hlow, hhigh⟩
  · have hA : 'A'.toNat ≤ c.toNat := hlow
    have hZ : c.toNat ≤ 'Z'.toNat := hhigh
    exact ⟨lt_of_lt_of_le (by decide) hA, lt_of_le_of_lt hZ (by decide)⟩
  · have ha : 'a'.toNat ≤ c.toNat := hlow
    have hz : c.toNat ≤ 'z'.toNat := hhigh
    exact ⟨lt_of_lt_of_le (by decide) ha, lt_of_le_of_lt hz (by decide)⟩

/-- A letter is a word character, also when it is lowered. -/
theorem isWordChar_toLower_of_isAlpha {c : Char} (h : c.isAlpha = true) :
    Token.isWordChar c.toLower = true := by
  have hascii : ∀ n < 0x80, (Char.ofNat n).isAlpha = true →
      Token.isWordChar (Char.ofNat n).toLower = true := by decide
  have hc := hascii c.toNat (visible_of_isAlpha h).2
  rw [Char.ofNat_toNat] at hc
  exact hc h

/-- An alphabetic word is a single token. -/
theorem IsAlphabetic.ofChars_toLower {word : String} (h : IsAlphabetic word) :
    Token.ofChars word.toLower.toList = [.word word.toLower.toList] := by
  have hlower : word.toLower.toList = word.toList.map Char.toLower := String.toList_map
  have hne : word.toLower.toList ≠ [] := by
    rw [hlower]
    intro hnil
    exact h.1 (String.toList_eq_nil_iff.mp (List.map_eq_nil_iff.mp hnil))
  have hword : ∀ c ∈ word.toLower.toList, Token.isWordChar c = true := by
    rw [hlower]
    intro c hc
    obtain ⟨d, hd, rfl⟩ := List.mem_map.mp hc
    exact isWordChar_toLower_of_isAlpha (h.2 d hd)
  have htokens := @Token.ofChars_word_append word.toLower.toList [] hne hword rfl
  rwa [List.append_nil] at htokens

/-- A release with a word behind it has the numbers of the release, and the word in a nested list. -/
theorem IsNumeric.parts_append_word {release word : String} (hr : IsNumeric release)
    (hw : IsAlphabetic word) :
    (ofText (release ++ "-" ++ word)).parts =
      (dropZeros (components release)).map .number ++ nested (qualifier word) := by
  have htext : (release ++ "-" ++ word).toList = release.toList ++ '-' :: word.toList := by
    simp
  have hvisible : ∀ c ∈ (release ++ "-" ++ word).toList, 0x20 < c.toNat ∧ c.toNat < 0x80 := by
    rw [htext]
    intro c hc
    rcases List.mem_append.mp hc with hc | hc
    · exact hr.visible c hc
    · rcases List.mem_cons.mp hc with rfl | hc
      · decide
      · exact visible_of_isAlpha (hw.2 c hc)
  have hcanonical : canonicalText (release ++ "-" ++ word) =
      release.toList ++ '-' :: word.toLower.toList := by
    rw [canonicalText_of_visible hvisible, htext, List.map_append, hr.map_toLower, List.map_cons]
    unfold String.toLower
    rw [String.toList_map]
    rfl
  have htokens : Part.ofTokens false (Token.ofChars (release.toList ++ '-' :: word.toLower.toList))
      = (components release).map .number ++ [.nest, .qualifier (qualifier word)] := by
    rw [hr.ofTokens_append rfl, Token.ofChars_dash_cons, hw.ofChars_toLower]
    rfl
  unfold ofText
  rw [hcanonical, htokens]
  have hnested := nested_eq_normalise (qualifier word)
  dsimp only
  rw [Part.normalise_numbers_append _ (hnested ▸ listEnds_nested _), hnested]

/-! ## Comparing releases with words behind them -/

/-- Nested lists of one qualifier each are in the order of the qualifiers. -/
theorem compareParts_nested (p q : Qualifier) :
    Part.compareParts (nested p) (nested q) = compare p q := by
  unfold nested
  split
  · next hp =>
    subst hp
    split
    · next hq =>
      subst hq
      rfl
    · -- the nested list stands against a missing part
      rw [Part.compareParts_nil_left]
      exact (Std.OrientedOrd.eq_swap (a := Qualifier.release) (b := q)).symm
  · split
    · next hq =>
      subst hq
      rfl
    · exact Ordering.then_eq

/-- **Versions of one release are in the order of the words behind it**, and such a version stands to
the release as its word stands to a plain release. -/
theorem compareText_of_isAlphabetic {release p q : String} (hr : IsNumeric release)
    (hp : IsAlphabetic p) (hq : IsAlphabetic q) :
    compareText (release ++ "-" ++ p) (release ++ "-" ++ q) =
        Qualifier.compareWords p.toLower q.toLower ∧
      compareText (release ++ "-" ++ p) release =
        compare (Qualifier.rung p.toLower) (Qualifier.rung "release") := by
  have hplain : (ofText release).parts =
      (dropZeros (components release)).map .number ++ nested .release := by
    rw [hr.parts_eq]
    exact (List.append_nil _).symm
  constructor
  · show Part.compareParts (ofText _).parts (ofText _).parts = _
    rw [hr.parts_append_word hp, hr.parts_append_word hq, Part.compareParts_append,
      compareParts_nested]
    unfold qualifier
    rw [Qualifier.compare_ofWord, String.ofList_toList, String.ofList_toList]
  · show Part.compareParts (ofText _).parts (ofText _).parts = _
    rw [hr.parts_append_word hp, hplain, Part.compareParts_append, compareParts_nested,
      Qualifier.compare_release]
    unfold qualifier
    rw [(Qualifier.rank_key_ofWord _).1, String.ofList_toList]
    rfl

theorem compareText_of_isAlphabetic_final :
    IsNumeric "1.0" ∧ IsAlphabetic "CR" ∧ IsAlphabetic "Final" ∧
      compareText ("1.0" ++ "-" ++ "CR") ("1.0" ++ "-" ++ "Final") = .lt ∧
      compareText ("1.0" ++ "-" ++ "CR") "1.0" = .lt := by
  have hr : IsNumeric "1.0" := by decide +kernel
  have hp : IsAlphabetic "CR" := by decide +kernel
  have hq : IsAlphabetic "Final" := by decide +kernel
  obtain ⟨hwords, hrelease⟩ := compareText_of_isAlphabetic hr hp hq
  refine ⟨hr, hp, hq, ?_, ?_⟩
  · rw [hwords]
    decide +kernel
  · rw [hrelease]
    decide +kernel

end Version

end MavenUpgrade

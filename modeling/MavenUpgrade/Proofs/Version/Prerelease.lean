import Mathlib
import MavenUpgrade.Proofs.Version.Runs

/-!
# Prereleases

A version is a prerelease exactly when a maximal run of word characters in it is one of the names of
a prerelease, or one of their abbreviations with a digit directly behind it
(`Version.isPrerelease_iff`). Every word of the text is read as a qualifier of its own
(`Part.qualifier_mem_ofTokens_iff`), and only plain releases are dropped of them
(`Part.qualifier_mem_normalise_iff`).
-/

namespace MavenUpgrade

/-! ## Names of prereleases -/

namespace Qualifier

/-- The words that stand for a prerelease. -/
def prereleaseNames : List String :=
  ["alpha", "beta", "milestone", "rc", "cr", "snapshot"]

/-- The letters that stand for a prerelease in front of a digit. -/
def prereleaseLetters : List String :=
  ["a", "b", "m"]

/-- Whether a word, with or without a digit behind it, names a prerelease. -/
def NamesPrerelease (word : List Char) (beforeDigit : Bool) : Prop :=
  String.ofList word ∈ prereleaseNames ∨
    String.ofList word ∈ prereleaseLetters ∧ beforeDigit = true

instance (word : List Char) (beforeDigit : Bool) : Decidable (NamesPrerelease word beforeDigit) :=
  inferInstanceAs (Decidable (_ ∨ _))

/-- The names that a word is looked up among. -/
def names (beforeDigit : Bool) : List (List Char × Qualifier) :=
  if beforeDigit then abbreviated ++ named else named

/-- A word is read as a prerelease exactly when it names one. -/
theorem isPrerelease_ofWord_iff (word : List Char) (beforeDigit : Bool) :
    (ofWord word beforeDigit).isPrerelease = true ↔ NamesPrerelease word beforeDigit := by
  have hof : ofWord word beforeDigit =
      ((names beforeDigit).lookup word).getD (other (String.ofList word)) := rfl
  rw [hof]
  cases hl : (names beforeDigit).lookup word with
  | none =>
    constructor
    · intro hother
      cases hother
    · intro hnames
      -- every name of a prerelease is in the list
      have hlisted : ∀ b, ∀ w ∈ prereleaseNames ++ (if b then prereleaseLetters else []),
          w.toList ∈ (names b).map Prod.fst := by decide
      have hmem : String.ofList word ∈
          prereleaseNames ++ (if beforeDigit then prereleaseLetters else []) := by
        rcases hnames with hname | ⟨hletter, rfl⟩
        · exact List.mem_append_left _ hname
        · exact List.mem_append_right _ hletter
      have hkey := hlisted beforeDigit _ hmem
      rw [String.toList_ofList] at hkey
      obtain ⟨entry, hentry, rfl⟩ := List.mem_map.mp hkey
      have hne := List.lookup_eq_none_iff.mp hl entry hentry
      simp at hne
  | some q =>
    have hmem : (word, q) ∈ names beforeDigit := by
      obtain ⟨before, after, hsplit, -⟩ := List.lookup_eq_some_iff.mp hl
      rw [hsplit]
      exact List.mem_append_right _ List.mem_cons_self
    have hlisted : ∀ b, ∀ entry ∈ names b,
        (entry.2.isPrerelease = true ↔ NamesPrerelease entry.1 b) := by decide
    exact hlisted beforeDigit (word, q) hmem

end Qualifier

/-! ## The qualifiers of a version -/

/-- A word among tokens is the first of them or one of the others. -/
theorem Token.exists_word_cons_iff {P : List Char → List Token → Prop} {t : Token}
    {ts : List Token} :
    (∃ before run after, t :: ts = before ++ word run :: after ∧ P run after) ↔
      (∃ run, t = word run ∧ P run ts) ∨
        ∃ before run after, ts = before ++ word run :: after ∧ P run after := by
  constructor
  · rintro ⟨before, run, after, hsplit, hP⟩
    cases before with
    | nil =>
      obtain ⟨rfl, rfl⟩ := List.cons.inj hsplit
      exact Or.inl ⟨run, rfl, hP⟩
    | cons first before =>
      obtain ⟨rfl, rfl⟩ := List.cons.inj hsplit
      exact Or.inr ⟨before, run, after, rfl, hP⟩
  · rintro (⟨run, rfl, hP⟩ | ⟨before, run, after, rfl, hP⟩)
    · exact ⟨[], run, ts, rfl, hP⟩
    · exact ⟨t :: before, run, after, rfl, hP⟩

namespace Part

/-- The qualifiers that tokens stand for are those of their words. -/
theorem qualifier_mem_ofTokens_iff {q : Qualifier} {ts : List Token} {joined : Bool} :
    qualifier q ∈ ofTokens joined ts ↔
      ∃ before run after, ts = before ++ .word run :: after ∧
        Qualifier.ofWord run (Token.beginDigits after) = q := by
  induction ts generalizing joined with
  | nil => simp [ofTokens]
  | cons t ts ih =>
    rw [Token.exists_word_cons_iff]
    cases t with
    | dot =>
      unfold ofTokens
      rw [List.mem_append, ih]
      cases joined <;> simp
    | dash =>
      unfold ofTokens
      rw [List.mem_append, List.mem_cons, ih]
      cases joined <;> simp
    | digits run =>
      unfold ofTokens
      rw [List.mem_append, List.mem_cons, ih]
      cases joined <;> simp
    | word run =>
      unfold ofTokens
      rw [List.mem_append, List.mem_cons, ih]
      cases joined <;> simp [eq_comm]

/-- Normalising adds no qualifier, and it drops none but those of a plain release. -/
theorem qualifier_mem_normalise_iff {q : Qualifier} (hq : q ≠ .release) (ps : List Part) :
    qualifier q ∈ normalise ps ↔ qualifier q ∈ ps := by
  induction ps with
  | nil => exact Iff.rfl
  | cons first ps ih =>
    have hstep : normalise (first :: ps) = prepend first (normalise ps) := rfl
    rw [hstep, List.mem_cons, ← ih]
    unfold prepend
    split
    · next hdrop =>
      -- what is dropped has no weight
      have hne : qualifier q ≠ first := by
        rintro rfl
        simp [isNull, hq] at hdrop
      simp [hne]
    · split
      · next hdrop =>
        rw [Bool.and_eq_true, decide_eq_true_eq, List.isEmpty_iff] at hdrop
        rw [hdrop.1, hdrop.2]
        simp
      · exact List.mem_cons

end Part

namespace Version

/-- A version is a prerelease if one of its qualifiers is. -/
theorem isPrerelease_iff_exists (text : String) :
    isPrerelease text = true ↔
      ∃ q, .qualifier q ∈ (ofText text).parts ∧ q.isPrerelease = true := by
  unfold isPrerelease
  rw [List.any_eq_true]
  constructor
  · rintro ⟨p, hp, hpre⟩
    cases p with
    | qualifier q => exact ⟨q, hp, hpre⟩
    | number n => cases hpre
    | nest => cases hpre
  · rintro ⟨q, hq, hpre⟩
    exact ⟨_, hq, hpre⟩

/-- **A version is a prerelease exactly when a maximal run of word characters in its trimmed
lowercase text names one**: as a word, or as a letter with a digit directly behind it. -/
theorem isPrerelease_iff (text : String) :
    isPrerelease text = true ↔
      ∃ before run after, Token.IsWordRun (canonicalText text) before run after ∧
        Qualifier.NamesPrerelease run (after.head?.any Char.isDigit) := by
  have hkept (q : Qualifier) (hpre : q.isPrerelease = true) :
      .qualifier q ∈ (ofText text).parts ↔
        ∃ before run after, Token.ofChars (canonicalText text) = before ++ .word run :: after ∧
          Qualifier.ofWord run (Token.beginDigits after) = q := by
    have hq : q ≠ .release := by
      rintro rfl
      cases hpre
    unfold ofText
    rw [Part.qualifier_mem_normalise_iff hq, Part.qualifier_mem_ofTokens_iff]
  rw [isPrerelease_iff_exists]
  constructor
  · rintro ⟨q, hmem, hpre⟩
    obtain ⟨ts, run, us, htokens, rfl⟩ := (hkept q hpre).mp hmem
    obtain ⟨before, after, hrun, hdigits⟩ := Token.exists_word_iff.mp ⟨ts, us, htokens, rfl⟩
    refine ⟨before, run, after, hrun, ?_⟩
    rw [hdigits]
    exact (Qualifier.isPrerelease_ofWord_iff _ _).mp hpre
  · rintro ⟨before, run, after, hrun, hnames⟩
    obtain ⟨ts, us, htokens, hdigits⟩ := Token.exists_word_iff.mpr ⟨before, after, hrun, rfl⟩
    rw [← hdigits] at hnames
    have hpre := (Qualifier.isPrerelease_ofWord_iff _ _).mpr hnames
    exact ⟨_, (hkept _ hpre).mpr ⟨ts, run, us, htokens, rfl⟩, hpre⟩

/-- A letter alone counts only with the digit directly behind it. -/
example : isPrerelease "5.0-M1" = true ∧ isPrerelease "5.0-M.1" = false := by
  decide +kernel

end Version

end MavenUpgrade

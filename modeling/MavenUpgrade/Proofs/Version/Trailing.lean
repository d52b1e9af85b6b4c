import Mathlib
import MavenUpgrade.Proofs.Version.Latest
import MavenUpgrade.Proofs.Version.Runs

/-!
# Trailing components without weight

A component that by itself is as good as nothing, such as a zero or the word of a plain release,
is not seen at the end of a version: behind a separator it leaves the version as it is
(`Version.ofText_append`). So a version may be lengthened by such endings as often as one likes and
still compares as before (`Version.compareText_append_nullEndings`).
-/

namespace MavenUpgrade

/-! ## What is read behind other tokens -/

namespace Part

/-- Parts that normalise to nothing are not seen at the end of others. -/
theorem normalise_append_of_null (ps : List Part) {qs : List Part} (h : normalise qs = []) :
    normalise (ps ++ qs) = normalise ps := by
  unfold normalise at h ⊢
  rw [List.foldr_append, h]

/-- Tokens that begin with a separator are read behind others as they are by themselves, but for
what the separator itself stands for. -/
theorem exists_ofTokens_append {us : List Token} (h : Token.beginDigits us = false)
    (joined : Bool) (ts : List Token) :
    ∃ joined', ofTokens joined (ts ++ us) = ofTokens joined ts ++ ofTokens joined' us := by
  induction ts generalizing joined with
  | nil => exact ⟨joined, rfl⟩
  | cons t ts ih =>
    cases t with
    | dot =>
      obtain ⟨joined', hrest⟩ := ih false
      refine ⟨joined', ?_⟩
      rw [List.cons_append, ofTokens, ofTokens, hrest, List.append_assoc]
    | dash =>
      obtain ⟨joined', hrest⟩ := ih false
      refine ⟨joined', ?_⟩
      rw [List.cons_append, ofTokens, ofTokens, hrest, List.append_assoc, List.cons_append]
    | digits run =>
      obtain ⟨joined', hrest⟩ := ih true
      refine ⟨joined', ?_⟩
      rw [List.cons_append, ofTokens, ofTokens, hrest, List.append_assoc, List.cons_append]
    | word run =>
      obtain ⟨joined', hrest⟩ := ih true
      -- whether a digit follows the word is seen within the tokens or at the separator
      have hnext : Token.beginDigits (ts ++ us) = Token.beginDigits ts := by
        cases ts with
        | nil => exact h
        | cons u ts => cases u <;> rfl
      refine ⟨joined', ?_⟩
      rw [List.cons_append, ofTokens, ofTokens, hnext, hrest, List.append_assoc,
        List.cons_append]

/-- A separator has no weight in front of tokens that have none. -/
theorem normalise_ofTokens_separator {sep : Token} (hsep : sep = .dot ∨ sep = .dash)
    {ts : List Token} (h : normalise (ofTokens false ts) = []) (joined : Bool) :
    normalise (ofTokens joined (sep :: ts)) = [] := by
  have hnest : normalise (nest :: ofTokens false ts) = [] := by
    show prepend nest (normalise (ofTokens false ts)) = []
    rw [h]
    rfl
  rcases hsep with rfl | rfl
  · rw [ofTokens, normalise_append_of_null _ h]
    cases joined <;> rfl
  · rw [ofTokens, normalise_append_of_null _ hnest]
    cases joined <;> rfl

end Part

/-! ## Lengthening a version -/

namespace Version

/-- Whether a text is ASCII and does not end in a blank, so that it goes on with what is
appended. -/
structure IsExtensible (text : String) : Prop where
  ascii : ∀ c ∈ text.toList, c.toNat < 0x80
  last : ∀ c ∈ text.toList.getLast?, Text.isBlank c = false

instance (text : String) : Decidable (IsExtensible text) :=
  decidable_of_iff ((text.toList.all fun c => c.toNat < 0x80) = true ∧
      (text.toList.getLast?.all fun c => !Text.isBlank c) = true) <| by
    rw [List.all_eq_true, Option.all_eq_true]
    constructor
    · intro h
      exact ⟨by simpa using h.1, by simpa using h.2⟩
    · intro h
      exact ⟨by simpa using h.ascii, by simpa using h.last⟩

/-- Whether a text is a separator and, behind it, visible ASCII characters that make up a version
without weight. -/
def IsNullEnding (ending : String) : Prop :=
  ∃ separator component, (separator = '.' ∨ separator = '-') ∧
    ending.toList = separator :: component.toList ∧
      (∀ c ∈ component.toList, 0x20 < c.toNat ∧ c.toNat < 0x80) ∧ (ofText component).parts = []

theorem IsNullEnding.visible {ending : String} (h : IsNullEnding ending) :
    ∀ c ∈ ending.toList, 0x20 < c.toNat ∧ c.toNat < 0x80 := by
  obtain ⟨separator, component, hseparator, htext, hvisible, -⟩ := h
  rw [htext, List.forall_mem_cons]
  refine ⟨?_, hvisible⟩
  rcases hseparator with rfl | rfl <;> decide

/-- A text with such an ending may be lengthened again. -/
theorem IsExtensible.append {text ending : String} (ht : IsExtensible text)
    (he : IsNullEnding ending) : IsExtensible (text ++ ending) := by
  have hvisible := he.visible
  obtain ⟨separator, component, -, hne, -⟩ := he
  constructor
  · rw [String.toList_append, List.forall_mem_append]
    exact ⟨ht.ascii, fun c hc => (hvisible c hc).2⟩
  · intro c hc
    apply isBlank_of_visible
    apply hvisible
    rw [String.toList_append, List.getLast?_append_of_ne_nil] at hc
    · exact List.mem_of_getLast? hc
    · rw [hne]
      exact List.cons_ne_nil _ _

/-- The lowercase form of a lengthened text. -/
theorem canonicalText_append {text ending : String} (ht : IsExtensible text)
    (he : IsNullEnding ending) :
    canonicalText (text ++ ending) = canonicalText text ++ canonicalText ending := by
  have hvisible := he.visible
  obtain ⟨separator, component, -, hne, -⟩ := he
  have htrim : Text.trim (text.toList ++ ending.toList) =
      Text.trim text.toList ++ ending.toList := by
    rw [hne] at hvisible ⊢
    exact Text.trim_append_cons ht.last fun c hc => isBlank_of_visible (hvisible c hc)
  have hascii : ∀ c ∈ Text.trim text.toList, c.toNat < 0x80 := by
    intro c hc
    apply ht.ascii
    rw [← Text.around_trim text.toList]
    exact List.mem_append_left _ (List.mem_append_right _ hc)
  rw [canonicalText_of_visible hvisible]
  unfold canonicalText
  rw [String.toList_append, htrim, Text.lower_of_ascii hascii, Text.lower_of_ascii,
    List.map_append]
  rw [List.forall_mem_append]
  exact ⟨hascii, fun c hc => (hvisible c hc).2⟩

/-- The tokens of an ending without weight: a separator in front of tokens that stand for
nothing. -/
theorem IsNullEnding.exists_tokens {ending : String} (h : IsNullEnding ending) :
    ∃ token ts, (token = .dot ∨ token = .dash) ∧
      Token.ofChars (canonicalText ending) = token :: ts ∧
        Part.normalise (Part.ofTokens false ts) = [] := by
  have hcanonical := canonicalText_of_visible h.visible
  obtain ⟨separator, component, hseparator, htext, hvisible, hnull⟩ := h
  unfold ofText at hnull
  rw [canonicalText_of_visible hvisible] at hnull
  rw [hcanonical, htext, List.map_cons]
  rcases hseparator with rfl | rfl
  · exact ⟨.dot, _, Or.inl rfl, rfl, hnull⟩
  · exact ⟨.dash, _, Or.inr rfl, rfl, hnull⟩

/-- **An ending without weight leaves a version as it is.** -/
theorem ofText_append {text ending : String} (ht : IsExtensible text) (he : IsNullEnding ending) :
    ofText (text ++ ending) = ofText text := by
  obtain ⟨token, ts, htoken, htokens, hnull⟩ := he.exists_tokens
  have hdigits : Token.beginDigits (token :: ts) = false := by
    rcases htoken with rfl | rfl <;> rfl
  have hword : Token.beginWord (token :: ts) = false := by
    rcases htoken with rfl | rfl <;> rfl
  have hcut : Token.ofChars (canonicalText (text ++ ending)) =
      Token.ofChars (canonicalText text) ++ token :: ts := by
    rw [canonicalText_append ht he, Token.ofChars_append (htokens ▸ hdigits) (htokens ▸ hword),
      htokens]
  obtain ⟨joined, hparts⟩ := Part.exists_ofTokens_append hdigits false
    (Token.ofChars (canonicalText text))
  unfold ofText
  rw [hcut, hparts,
    Part.normalise_append_of_null _ (Part.normalise_ofTokens_separator htoken hnull joined)]

/-- Endings without weight leave a version as it is, however many there are. -/
theorem ofText_append_join {text : String} {endings : List String} (ht : IsExtensible text)
    (he : ∀ ending ∈ endings, IsNullEnding ending) :
    ofText (text ++ String.join endings) = ofText text := by
  induction endings generalizing text with
  | nil => rw [String.join_nil, String.append_empty]
  | cons ending endings ih =>
    rw [List.forall_mem_cons] at he
    rw [String.join_cons, ← String.append_assoc, ih (ht.append he.1) he.2, ofText_append ht he.1]

/-- A zero and two spellings of a plain release, each behind a separator. -/
def nullEndings : List String :=
  [".0", ".final", "-ga"]

theorem isNullEnding_of_mem {ending : String} (h : ending ∈ nullEndings) :
    IsNullEnding ending := by
  simp only [nullEndings, List.mem_cons, List.not_mem_nil, or_false] at h
  rcases h with rfl | rfl | rfl
  · exact ⟨'.', "0", Or.inl rfl, rfl, by simp, by decide +kernel⟩
  · exact ⟨'.', "final", Or.inl rfl, rfl, by simp, by decide +kernel⟩
  · exact ⟨'-', "ga", Or.inr rfl, rfl, by simp, by decide +kernel⟩

/-- **Zeros and plain releases at the end of a version are invisible**: the lengthened version is as
high as the version, and stands to every other one as the version does. -/
theorem compareText_append_nullEndings {text : String} {endings : List String}
    (ht : IsExtensible text) (he : ∀ ending ∈ endings, ending ∈ nullEndings) :
    compareText (text ++ String.join endings) text = .eq ∧
      ∀ other, compareText (text ++ String.join endings) other = compareText text other ∧
        compareText other (text ++ String.join endings) = compareText other text := by
  have hsame : ofText (text ++ String.join endings) = ofText text :=
    ofText_append_join ht fun ending h => isNullEnding_of_mem (he ending h)
  have hleft (other : String) :
      compareText (text ++ String.join endings) other = compareText text other := by
    unfold compareText
    rw [hsame]
  refine ⟨?_, ?_⟩
  · rw [hleft]
    exact compareText_self text
  · intro other
    refine ⟨hleft other, ?_⟩
    unfold compareText
    rw [hsame]

theorem compareText_append_nullEndings_nested :
    IsExtensible " 1.0-RC.-" ∧ (∀ ending ∈ ["-ga", ".0", ".final"], ending ∈ nullEndings) ∧
      compareText (" 1.0-RC.-" ++ String.join ["-ga", ".0", ".final"]) " 1.0-RC.-" = .eq ∧
      compareText (" 1.0-RC.-" ++ String.join ["-ga", ".0", ".final"]) "1.0" = .lt := by
  have ht : IsExtensible " 1.0-RC.-" := by decide +kernel
  have he : ∀ ending ∈ ["-ga", ".0", ".final"], ending ∈ nullEndings := by decide
  obtain ⟨heq, hother⟩ := compareText_append_nullEndings ht he
  refine ⟨ht, he, heq, ?_⟩
  rw [(hother "1.0").1]
  decide +kernel

end Version

end MavenUpgrade

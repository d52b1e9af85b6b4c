import Mathlib
import MavenUpgrade.Proofs.Version.Reading

/-!
# The runs of a version text

The tokens of a text are the only way to cut it into separators and maximal runs of digits and of
word characters (`Token.ofChars_eq_iff`). So each word among the tokens is a maximal run of word
characters of the text, and there are no others (`Token.exists_word_iff`); behind a text that ends
anywhere a separator begins tokens of its own (`Token.ofChars_append`).
-/

namespace MavenUpgrade.Token

/-! ## Cuts -/

/-- Whether a token can stand in front of others: it has no characters but those of its kind, and
the next token does not go on with them. -/
def StandsBefore (ts : List Token) : Token → Prop
  | dot => True
  | dash => True
  | digits run => run ≠ [] ∧ (∀ c ∈ run, c.isDigit = true) ∧ beginDigits ts = false
  | word run => run ≠ [] ∧ (∀ c ∈ run, isWordChar c = true) ∧ beginWord ts = false

/-- Whether tokens are separators and maximal runs. -/
def IsCut : List Token → Prop
  | [] => True
  | t :: ts => t.StandsBefore ts ∧ IsCut ts

@[simp]
theorem isCut_cons {t : Token} {ts : List Token} :
    IsCut (t :: ts) ↔ t.StandsBefore ts ∧ IsCut ts :=
  Iff.rfl

theorem not_isWordChar_of_isDigit {c : Char} (h : c.isDigit = true) : isWordChar c = false := by
  unfold isWordChar
  rw [h]
  simp

/-- A digit in front of a cut gives a cut, by itself or joined to the first run. -/
theorem isCut_push_digit {c : Char} (hc : c.isDigit = true) {ts : List Token} (h : IsCut ts) :
    IsCut (push c ts) := by
  cases hts : beginDigits ts with
  | false =>
    rw [push_digit hc hts]
    refine ⟨⟨List.cons_ne_nil c [], ?_, hts⟩, h⟩
    intro d hd
    rw [List.mem_singleton.mp hd]
    exact hc
  | true =>
    cases ts with
    | nil => cases hts
    | cons t ts =>
      cases t with
      | digits run =>
        obtain ⟨⟨-, hrun, hnext⟩, hrest⟩ := h
        rw [push_digit_digits hc]
        exact ⟨⟨List.cons_ne_nil c run, List.forall_mem_cons.mpr ⟨hc, hrun⟩, hnext⟩, hrest⟩
      | _ => cases hts

/-- A word character in front of a cut gives a cut, by itself or joined to the first run. -/
theorem isCut_push_word {c : Char} (hc : isWordChar c = true) {ts : List Token} (h : IsCut ts) :
    IsCut (push c ts) := by
  cases hts : beginWord ts with
  | false =>
    rw [push_word hc hts]
    refine ⟨⟨List.cons_ne_nil c [], ?_, hts⟩, h⟩
    intro d hd
    rw [List.mem_singleton.mp hd]
    exact hc
  | true =>
    cases ts with
    | nil => cases hts
    | cons t ts =>
      cases t with
      | word run =>
        obtain ⟨⟨-, hrun, hnext⟩, hrest⟩ := h
        rw [push_word_word hc]
        exact ⟨⟨List.cons_ne_nil c run, List.forall_mem_cons.mpr ⟨hc, hrun⟩, hnext⟩, hrest⟩
      | _ => cases hts

/-- The tokens of a text are a cut. -/
theorem isCut_ofChars (cs : List Char) : IsCut (ofChars cs) := by
  induction cs with
  | nil => exact trivial
  | cons c cs ih =>
    rw [ofChars_cons]
    by_cases hdigit : c.isDigit = true
    · exact isCut_push_digit hdigit ih
    · by_cases hword : isWordChar c = true
      · exact isCut_push_word hword ih
      · -- what is left are the separators
        have hsep : c = '.' ∨ c = '-' := by
          by_contra hne
          rw [not_or] at hne
          exact hword (isWordChar_iff.mpr ⟨hne.1, hne.2, hdigit⟩)
        rcases hsep with rfl | rfl
        · exact ⟨trivial, ih⟩
        · exact ⟨trivial, ih⟩

/-- A cut of a text has the tokens of the text. -/
theorem ofChars_flatMap {ts : List Token} (h : IsCut ts) : ofChars (ts.flatMap chars) = ts := by
  induction ts with
  | nil => rfl
  | cons t ts ih =>
    obtain ⟨hstands, hrest⟩ := h
    have htokens := ih hrest
    rw [List.flatMap_cons]
    cases t with
    | dot => exact congrArg (dot :: ·) htokens
    | dash => exact congrArg (dash :: ·) htokens
    | digits run =>
      obtain ⟨hne, hrun, hnext⟩ := hstands
      rw [← htokens] at hnext
      exact (ofChars_digits_append hne hrun hnext).trans (congrArg (digits run :: ·) htokens)
    | word run =>
      obtain ⟨hne, hrun, hnext⟩ := hstands
      rw [← htokens] at hnext
      exact (ofChars_word_append hne hrun hnext).trans (congrArg (word run :: ·) htokens)

/-- **The tokens of a text are its only cut.** -/
theorem ofChars_eq_iff {cs : List Char} {ts : List Token} :
    ofChars cs = ts ↔ IsCut ts ∧ ts.flatMap chars = cs := by
  constructor
  · rintro rfl
    exact ⟨isCut_ofChars cs, flatMap_chars_ofChars cs⟩
  · rintro ⟨hcut, rfl⟩
    exact ofChars_flatMap hcut

/-! ## Where cuts meet -/

theorem StandsBefore.nil {t : Token} {ts : List Token} (h : t.StandsBefore ts) :
    t.StandsBefore [] := by
  cases t with
  | dot => exact trivial
  | dash => exact trivial
  | digits run => exact ⟨h.1, h.2.1, rfl⟩
  | word run => exact ⟨h.1, h.2.1, rfl⟩

/-- Two cuts make up one exactly when the last token of the first can stand before the second. -/
theorem isCut_append_iff {ts us : List Token} :
    IsCut (ts ++ us) ↔ IsCut ts ∧ IsCut us ∧ ∀ t ∈ ts.getLast?, t.StandsBefore us := by
  induction ts with
  | nil => simp [IsCut]
  | cons t ts ih =>
    cases ts with
    | nil =>
      simp only [List.cons_append, List.nil_append, isCut_cons, List.getLast?_singleton,
        Option.mem_some_iff, forall_eq']
      constructor
      · rintro ⟨hstands, hus⟩
        exact ⟨⟨hstands.nil, trivial⟩, hus, hstands⟩
      · rintro ⟨-, hus, hstands⟩
        exact ⟨hstands, hus⟩
    | cons next ts =>
      -- only the first of the tokens that follow matters
      have hstands : t.StandsBefore (next :: ts ++ us) ↔ t.StandsBefore (next :: ts) := by
        cases t <;> cases next <;> exact Iff.rfl
      rw [List.cons_append, isCut_cons, ih, hstands, List.getLast?_cons_cons,
        @isCut_cons t (next :: ts), and_assoc]

theorem IsCut.standsBefore_of_getLast? {ts : List Token} (h : IsCut ts) {t : Token}
    (ht : t ∈ ts.getLast?) : t.StandsBefore [] := by
  obtain ⟨before, rfl⟩ := List.getLast?_eq_some_iff.mp ht
  exact (isCut_append_iff.mp h).2.1.1

/-- A token can stand in front of tokens of which the first is not of its kind. -/
theorem StandsBefore.of_ne {t : Token} {ts : List Token} (h : t.StandsBefore [])
    (hdigits : beginDigits ts = false) (hword : beginWord [t] = false ∨ beginWord ts = false) :
    t.StandsBefore ts := by
  cases t with
  | dot => exact trivial
  | dash => exact trivial
  | digits run => exact ⟨h.1, h.2.1, hdigits⟩
  | word run => exact ⟨h.1, h.2.1, hword.resolve_left nofun⟩

/-- A separator begins tokens of its own, whatever stands before it. -/
theorem ofChars_append {cs ds : List Char} (hdigits : beginDigits (ofChars ds) = false)
    (hword : beginWord (ofChars ds) = false) :
    ofChars (cs ++ ds) = ofChars cs ++ ofChars ds := by
  rw [ofChars_eq_iff]
  constructor
  · rw [isCut_append_iff]
    refine ⟨isCut_ofChars cs, isCut_ofChars ds, ?_⟩
    intro t ht
    apply ((isCut_ofChars cs).standsBefore_of_getLast? ht).of_ne hdigits
    exact Or.inr hword
  · rw [List.flatMap_append, flatMap_chars_ofChars, flatMap_chars_ofChars]

/-! ## Words -/

/-- A maximal run of word characters in a text, between what stands before it and behind it. -/
structure IsWordRun (text before run after : List Char) : Prop where
  eq : text = before ++ run ++ after
  ne_nil : run ≠ []
  isWordChar : ∀ c ∈ run, isWordChar c = true
  before : ∀ c ∈ before.getLast?, Token.isWordChar c = false
  after : ∀ c ∈ after.head?, Token.isWordChar c = false

/-- The first character of a text tells how its tokens begin. -/
theorem begin_ofChars (cs : List Char) :
    beginDigits (ofChars cs) = cs.head?.any Char.isDigit ∧
      beginWord (ofChars cs) = cs.head?.any isWordChar := by
  cases cs with
  | nil => exact ⟨rfl, rfl⟩
  | cons c cs =>
    rw [ofChars_cons]
    unfold push
    split
    · next h =>
      subst h
      exact ⟨rfl, rfl⟩
    · split
      · next h =>
        subst h
        exact ⟨rfl, rfl⟩
      · split <;> split <;> simp_all [beginDigits, beginWord, isWordChar]

/-- Each character of a token tells whether the token is a word. -/
theorem StandsBefore.isWordChar_eq {t : Token} {ts : List Token} (h : t.StandsBefore ts) :
    t.chars ≠ [] ∧ ∀ c ∈ t.chars, isWordChar c = beginWord [t] := by
  cases t with
  | dot => exact ⟨List.cons_ne_nil _ _, List.forall_mem_singleton.mpr rfl⟩
  | dash => exact ⟨List.cons_ne_nil _ _, List.forall_mem_singleton.mpr rfl⟩
  | digits run => exact ⟨h.1, fun c hc => not_isWordChar_of_isDigit (h.2.1 c hc)⟩
  | word run => exact ⟨h.1, h.2.1⟩

/-- A cut ends in a word exactly when its text ends in a word character. -/
theorem isWordChar_getLast?_iff {ts : List Token} (h : IsCut ts) :
    (∀ c ∈ (ts.flatMap chars).getLast?, isWordChar c = false) ↔
      ∀ t ∈ ts.getLast?, beginWord [t] = false := by
  rcases List.eq_nil_or_concat ts with rfl | ⟨ts, t, rfl⟩
  · simp
  · rw [List.concat_eq_append] at h ⊢
    obtain ⟨hne, hchars⟩ := (isCut_append_iff.mp h).2.1.1.isWordChar_eq
    have hc : t.chars.getLast? = some (t.chars.getLast hne) := List.getLast?_eq_some_getLast hne
    have hlast := hchars _ (List.getLast_mem hne)
    rw [List.flatMap_append, List.flatMap_singleton, List.getLast?_append, hc]
    simp [hlast]

/-- A word among the tokens of a text is a maximal run of word characters. -/
theorem isWordRun_of_ofChars {cs run : List Char} {ts us : List Token}
    (h : ofChars cs = ts ++ word run :: us) :
    IsWordRun cs (ts.flatMap chars) run (us.flatMap chars) ∧
      ofChars (us.flatMap chars) = us := by
  obtain ⟨hcut, htext⟩ := ofChars_eq_iff.mp h
  obtain ⟨hbefore, ⟨⟨hne, hrun, hnext⟩, hafter⟩, hlast⟩ := isCut_append_iff.mp hcut
  have hus := ofChars_flatMap hafter
  refine ⟨⟨?_, hne, hrun, ?_, ?_⟩, hus⟩
  · rw [← htext, List.flatMap_append, List.flatMap_cons, List.append_assoc]
    rfl
  · rw [isWordChar_getLast?_iff hbefore]
    intro t ht
    -- two words do not stand side by side
    cases t with
    | word before => exact (hlast _ ht).2.2
    | _ => rfl
  · rw [← hus, (begin_ofChars _).2] at hnext
    intro c hc
    rw [Option.mem_def] at hc
    rwa [hc] at hnext

/-- A maximal run of word characters is a word among the tokens of the text. -/
theorem ofChars_of_isWordRun {text before run after : List Char}
    (h : IsWordRun text before run after) :
    ofChars text = ofChars before ++ word run :: ofChars after := by
  rw [ofChars_eq_iff]
  constructor
  · have hnext : beginWord (ofChars after) = false := by
      rw [(begin_ofChars after).2]
      cases hhead : after.head? with
      | none => rfl
      | some c => exact h.after c hhead
    rw [isCut_append_iff]
    refine ⟨isCut_ofChars before, ⟨⟨h.ne_nil, h.isWordChar, hnext⟩, isCut_ofChars after⟩, ?_⟩
    intro t ht
    have hword : beginWord [t] = false := by
      have hlast := isWordChar_getLast?_iff (isCut_ofChars before)
      rw [flatMap_chars_ofChars] at hlast
      exact hlast.mp h.before t ht
    apply ((isCut_ofChars before).standsBefore_of_getLast? ht).of_ne rfl
    exact Or.inl hword
  · rw [List.flatMap_append, List.flatMap_cons, flatMap_chars_ofChars, flatMap_chars_ofChars,
      h.eq, List.append_assoc]
    rfl

/-- **The words among the tokens of a text are its maximal runs of word characters**, with digits
behind the one where there are digits behind the other. -/
theorem exists_word_iff {cs run : List Char} {followed : Bool} :
    (∃ ts us, ofChars cs = ts ++ word run :: us ∧ beginDigits us = followed) ↔
      ∃ before after, IsWordRun cs before run after ∧
        after.head?.any Char.isDigit = followed := by
  constructor
  · rintro ⟨ts, us, htokens, hdigits⟩
    obtain ⟨hrun, hus⟩ := isWordRun_of_ofChars htokens
    refine ⟨_, _, hrun, ?_⟩
    rw [← (begin_ofChars _).1, hus]
    exact hdigits
  · rintro ⟨before, after, hrun, hdigits⟩
    refine ⟨_, _, ofChars_of_isWordRun hrun, ?_⟩
    rw [(begin_ofChars after).1]
    exact hdigits

end MavenUpgrade.Token

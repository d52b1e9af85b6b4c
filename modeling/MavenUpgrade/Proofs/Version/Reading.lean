import Mathlib
import MavenUpgrade.Proofs.Text.Trim
import MavenUpgrade.Version.Basic

/-!
# Reading version texts

A version text is taken apart from the left: digits or word characters up to the first character of
another kind are one token, whatever follows (`Token.ofChars_digits_append`,
`Token.ofChars_word_append`). A text of visible ASCII characters is read in small letters as it
stands (`Version.canonicalText_of_visible`).
-/

namespace MavenUpgrade

/-- A digit has no other lowercase form. -/
theorem Text.toLower_of_isDigit {c : Char} (h : c.isDigit = true) : c.toLower = c := by
  have hdigit := (Char.isDigit_iff_toNat.mp h).2
  unfold Char.toLower
  rw [dif_neg]
  rintro ⟨hupper, -⟩
  have hA : 'A'.toNat ≤ c.toNat := hupper
  have h9 : '9'.toNat < 'A'.toNat := by decide
  omega

namespace Token

/-- Whether a character belongs to a word: it is no digit and no separator. -/
def isWordChar (c : Char) : Bool :=
  c != '.' && c != '-' && !c.isDigit

/-- Whether the tokens begin with a word. -/
def beginWord : List Token → Bool
  | word _ :: _ => true
  | _ => false

theorem ofChars_cons (c : Char) (cs : List Char) : ofChars (c :: cs) = push c (ofChars cs) :=
  rfl

@[simp]
theorem ofChars_dot_cons (cs : List Char) : ofChars ('.' :: cs) = dot :: ofChars cs :=
  rfl

@[simp]
theorem ofChars_dash_cons (cs : List Char) : ofChars ('-' :: cs) = dash :: ofChars cs :=
  rfl

/-- A digit joins the digits that follow it. -/
theorem push_digit_digits {c : Char} (hc : c.isDigit = true) (run : List Char) (ts : List Token) :
    push c (digits run :: ts) = digits (c :: run) :: ts := by
  unfold push
  rw [if_neg (by rintro rfl; cases hc), if_neg (by rintro rfl; cases hc), if_pos hc]

/-- In front of anything else a digit is a run by itself. -/
theorem push_digit {c : Char} (hc : c.isDigit = true) {ts : List Token}
    (hts : beginDigits ts = false) : push c ts = digits [c] :: ts := by
  unfold push
  rw [if_neg (by rintro rfl; cases hc), if_neg (by rintro rfl; cases hc), if_pos hc]
  split
  · cases hts
  · rfl

theorem isWordChar_iff {c : Char} :
    isWordChar c = true ↔ c ≠ '.' ∧ c ≠ '-' ∧ ¬ c.isDigit = true := by
  simp [isWordChar, and_assoc]

/-- A word character joins the word that follows it. -/
theorem push_word_word {c : Char} (hc : isWordChar c = true) (run : List Char) (ts : List Token) :
    push c (word run :: ts) = word (c :: run) :: ts := by
  obtain ⟨hdot, hdash, hdigit⟩ := isWordChar_iff.mp hc
  unfold push
  rw [if_neg hdot, if_neg hdash, if_neg hdigit]

/-- In front of anything else a word character is a word by itself. -/
theorem push_word {c : Char} (hc : isWordChar c = true) {ts : List Token}
    (hts : beginWord ts = false) : push c ts = word [c] :: ts := by
  obtain ⟨hdot, hdash, hdigit⟩ := isWordChar_iff.mp hc
  unfold push
  rw [if_neg hdot, if_neg hdash, if_neg hdigit]
  split
  · cases hts
  · rfl

/-- Digits in front of anything else are one token. -/
theorem ofChars_digits_append {run rest : List Char} (hne : run ≠ [])
    (hrun : ∀ c ∈ run, c.isDigit = true) (hrest : beginDigits (ofChars rest) = false) :
    ofChars (run ++ rest) = digits run :: ofChars rest := by
  induction run with
  | nil => exact absurd rfl hne
  | cons c run ih =>
    have hc : c.isDigit = true := hrun c List.mem_cons_self
    rw [List.cons_append, ofChars_cons]
    cases run with
    | nil => exact push_digit hc hrest
    | cons d run =>
      rw [ih (List.cons_ne_nil d run) fun e he => hrun e (List.mem_cons_of_mem c he)]
      exact push_digit_digits hc _ _

/-- Word characters in front of anything else are one token. -/
theorem ofChars_word_append {run rest : List Char} (hne : run ≠ [])
    (hrun : ∀ c ∈ run, isWordChar c = true) (hrest : beginWord (ofChars rest) = false) :
    ofChars (run ++ rest) = word run :: ofChars rest := by
  induction run with
  | nil => exact absurd rfl hne
  | cons c run ih =>
    have hc : isWordChar c = true := hrun c List.mem_cons_self
    rw [List.cons_append, ofChars_cons]
    cases run with
    | nil => exact push_word hc hrest
    | cons d run =>
      rw [ih (List.cons_ne_nil d run) fun e he => hrun e (List.mem_cons_of_mem c he)]
      exact push_word_word hc _ _

end Token

namespace Version

/-- A visible ASCII character is not blank. -/
theorem isBlank_of_visible {c : Char} (h : 0x20 < c.toNat ∧ c.toNat < 0x80) :
    Text.isBlank c = false := by
  unfold Text.isBlank
  simp
  omega

/-- A text of visible ASCII characters is read in small letters as it stands. -/
theorem canonicalText_of_visible {text : String}
    (h : ∀ c ∈ text.toList, 0x20 < c.toNat ∧ c.toNat < 0x80) :
    canonicalText text = text.toList.map Char.toLower := by
  have htrim : Text.IsTrimmed text.toList :=
    Text.isTrimmed_of_forall fun c hc => isBlank_of_visible (h c hc)
  unfold canonicalText
  rw [htrim, Text.lower_of_ascii fun c hc => (h c hc).2]

end Version

end MavenUpgrade

import Mathlib
import MavenUpgrade.Proofs.Version.Order
import MavenUpgrade.Proofs.Version.Runs

/-!
# The major component

A version that begins with digits has the number they write as its major component
(`Version.isMajorBump_iff`), and this number decides how the version stands to those with another
one (`Version.compareText_of_isMajorBump`). A zero may be dropped from the parts of a version, but
what then stands in its place, if anything, is a nested list, and a number is above that, too.
-/

namespace MavenUpgrade

/-! ## Digits in lowercase text -/

namespace Text

theorem not_isDigit_ofNat {n : Nat} (h : '9'.toNat < n) : (Char.ofNat n).isDigit = false := by
  have htoNat : (Char.ofNat n).toNat = if n.isValidChar then n else 0 := Char.toNat_ofNat n
  rw [Bool.eq_false_iff, ne_eq, Char.isDigit_iff_toNat, htoNat]
  have hzero : 0 < '0'.toNat := by decide
  split <;> omega

/-- No code point outside ASCII has a digit for its lowercase form. -/
theorem lt_mapRuns_lowercaseRuns {n : Nat} (h : '9'.toNat < n) :
    '9'.toNat < mapRuns lowercaseRuns n := by
  have htable : ∀ run ∈ lowercaseRuns, '9'.toNat < run.2.2.2 := by decide +kernel
  unfold mapRuns
  split
  · next first last step lower hfind =>
    have hlower : '9'.toNat < lower := htable _ (List.mem_of_find?_eq_some hfind)
    omega
  · exact h

theorem isDigit_lowerChar (c : Char) : (lowerChar c).isDigit = c.isDigit := by
  unfold lowerChar
  split
  · next hascii =>
    have htable : ∀ n < 0x80, (Char.ofNat n).toLower.isDigit = (Char.ofNat n).isDigit := by decide
    have hc := htable c.toNat hascii
    rwa [Char.ofNat_toNat] at hc
  · next hascii =>
    have h9 : '9'.toNat < 0x80 := by decide
    have hc : c.isDigit = false := by
      rw [← Char.ofNat_toNat c]
      apply not_isDigit_ofNat
      omega
    rw [hc]
    apply not_isDigit_ofNat
    apply lt_mapRuns_lowercaseRuns
    omega

theorem lowerAt_of_isDigit {c : Char} (h : c.isDigit = true) (before after : List Char) :
    lowerAt before c after = [c] := by
  have hc := (Char.isDigit_iff_toNat.mp h).2
  have h9 : '9'.toNat < 0x80 := by decide
  rw [lowerAt_of_ascii (by omega), toLower_of_isDigit h]

/-- The lowercase form of a character that is no digit does not begin with one. -/
theorem takeWhile_isDigit_lowerAt {c : Char} (h : c.isDigit = false)
    (before after rest : List Char) :
    (lowerAt before c after ++ rest).takeWhile Char.isDigit = [] := by
  unfold lowerAt
  split
  · split <;> rfl
  · split
    · rfl
    · rw [← isDigit_lowerChar] at h
      exact List.takeWhile_cons_of_neg (Bool.eq_false_iff.mp h)

/-- A text in lowercase begins with the same digits. -/
theorem takeWhile_isDigit_lowerAfter (before cs : List Char) :
    (lowerAfter before cs).takeWhile Char.isDigit = cs.takeWhile Char.isDigit := by
  induction cs generalizing before with
  | nil => rfl
  | cons c cs ih =>
    rw [lowerAfter]
    by_cases hc : c.isDigit = true
    · rw [lowerAt_of_isDigit hc, List.takeWhile_cons_of_pos hc, List.singleton_append,
        List.takeWhile_cons_of_pos hc, ih]
    · rw [takeWhile_isDigit_lowerAt (Bool.eq_false_iff.mpr hc), List.takeWhile_cons_of_neg hc]

end Text

/-! ## Numbers in the first place -/

namespace Part

/-- What a number in the first place leaves when it is dropped is below every number but zero. -/
theorem compareParts_of_listEnds {ps : List Part} (h : listEnds ps = true) {n : Nat} (hn : n ≠ 0)
    (qs : List Part) : compareParts ps (number n :: qs) = .lt := by
  cases ps with
  | nil =>
    rw [compareParts_nil_left, compareWithNone, Nat.compare_eq_gt.mpr (Nat.pos_of_ne_zero hn)]
    rfl
  | cons p ps =>
    cases p with
    | nest => rfl
    | _ => cases h

/-- A number in the first place stays there, unless it is a zero at the end of its list. -/
theorem prepend_number (n : Nat) (ps : List Part) :
    prepend (number n) ps = number n :: ps ∨
      n = 0 ∧ listEnds ps = true ∧ prepend (number n) ps = ps := by
  by_cases hdrop : n = 0 ∧ listEnds ps = true
  · refine Or.inr ⟨hdrop.1, hdrop.2, ?_⟩
    simp [prepend, isNull, hdrop.1, hdrop.2]
  · left
    have hkeep : ¬ ((number n).isNull && listEnds ps) = true := by
      simpa [isNull] using hdrop
    unfold prepend
    rw [if_neg hkeep]
    simp

/-- Different numbers in the first place decide, whatever follows them and whether or not one of
them is dropped. -/
theorem compareParts_prepend_number {m n : Nat} (hmn : m ≠ n) (ps qs : List Part) :
    compareParts (prepend (number m) ps) (prepend (number n) qs) = compare m n := by
  rcases prepend_number m ps with hm | ⟨rfl, hends, hm⟩
  · rcases prepend_number n qs with hn | ⟨rfl, hends, hn⟩
    · rw [hm, hn, compareParts]
      cases hc : compare m n with
      | lt => rfl
      | gt => rfl
      | eq => exact absurd (Nat.compare_eq_eq.mp hc) hmn
    · rw [hm, hn, compareParts_swap, compareParts_of_listEnds hends hmn,
        Nat.compare_eq_gt.mpr (Nat.pos_of_ne_zero hmn)]
      rfl
  · rcases prepend_number n qs with hn | ⟨rfl, -, -⟩
    · rw [hm, hn, compareParts_of_listEnds hends hmn.symm,
        Nat.compare_eq_lt.mpr (Nat.pos_of_ne_zero hmn.symm)]
    · exact absurd rfl hmn

end Part

/-! ## Versions that begin with digits -/

namespace Version

/-- The digits that a trimmed version text begins with. -/
def leadingDigits (text : String) : List Char :=
  (Text.trim text.toList).takeWhile Char.isDigit

/-- The number that these digits write in decimal. -/
def leadingNumber (text : String) : Nat :=
  Nat.ofDigitChars 10 (leadingDigits text) 0

theorem takeWhile_isDigit_canonicalText (text : String) :
    (canonicalText text).takeWhile Char.isDigit = leadingDigits text :=
  Text.takeWhile_isDigit_lowerAfter [] _

/-- The major component of a version that begins with digits is their number. -/
theorem major_ofText {text : String} (h : leadingDigits text ≠ []) :
    Major.ofText text = .number (leadingNumber text) := by
  unfold Major.ofText
  dsimp only
  rw [takeWhile_isDigit_canonicalText, if_neg]
  · rfl
  · rw [List.isEmpty_iff]
    exact h

theorem isMajorBump_iff {a b : String} (ha : leadingDigits a ≠ []) (hb : leadingDigits b ≠ []) :
    isMajorBump a b = true ↔ leadingNumber a ≠ leadingNumber b := by
  unfold isMajorBump
  rw [major_ofText ha, major_ofText hb, bne_iff_ne, ne_eq, Major.number.injEq]

/-- The number of the digits at its beginning is the first part of a version, or would be if it were
not dropped. -/
theorem exists_parts_eq_prepend {text : String} (h : leadingDigits text ≠ []) :
    ∃ ps, (ofText text).parts = Part.prepend (.number (leadingNumber text)) ps := by
  have hcanonical := takeWhile_isDigit_canonicalText text
  generalize hrest : (canonicalText text).dropWhile Char.isDigit = rest
  have htext : canonicalText text = leadingDigits text ++ rest := by
    rw [← hcanonical, ← hrest, List.takeWhile_append_dropWhile]
  have hdigits : ∀ c ∈ leadingDigits text, c.isDigit = true := fun c hc =>
    List.mem_takeWhile_imp hc
  have hnext : Token.beginDigits (Token.ofChars rest) = false := by
    have hhead := List.head?_dropWhile_not Char.isDigit (canonicalText text)
    rw [hrest] at hhead
    rw [(Token.begin_ofChars rest).1]
    cases rest with
    | nil => rfl
    | cons c rest => exact hhead
  unfold ofText
  rw [htext, Token.ofChars_digits_append h hdigits hnext]
  exact ⟨_, rfl⟩

/-- **The major component comes first in the order of versions**: versions that begin with digits
and differ in their major component are in the order of the numbers they begin with, whatever
follows. -/
theorem compareText_of_isMajorBump {a b : String} (ha : leadingDigits a ≠ [])
    (hb : leadingDigits b ≠ []) (h : isMajorBump a b = true) :
    compareText a b = compare (leadingNumber a) (leadingNumber b) ∧ compareText a b ≠ .eq := by
  have hne := (isMajorBump_iff ha hb).mp h
  obtain ⟨ps, hps⟩ := exists_parts_eq_prepend ha
  obtain ⟨qs, hqs⟩ := exists_parts_eq_prepend hb
  have hcompare : compareText a b = compare (leadingNumber a) (leadingNumber b) := by
    show Part.compareParts (ofText a).parts (ofText b).parts = _
    rw [hps, hqs, Part.compareParts_prepend_number hne]
  refine ⟨hcompare, ?_⟩
  rw [hcompare]
  intro heq
  exact hne (Nat.compare_eq_eq.mp heq)

theorem compareText_of_isMajorBump_dropped :
    leadingDigits " 00-rc.9" ≠ [] ∧ leadingDigits "010.Final" ≠ [] ∧
      isMajorBump " 00-rc.9" "010.Final" = true ∧
        compareText " 00-rc.9" "010.Final" = compare 0 10 ∧
          compareText " 00-rc.9" "010.Final" ≠ .eq := by
  have ha : leadingDigits " 00-rc.9" ≠ [] := by decide +kernel
  have hb : leadingDigits "010.Final" ≠ [] := by decide +kernel
  have h : isMajorBump " 00-rc.9" "010.Final" = true := by decide +kernel
  obtain ⟨hcompare, hne⟩ := compareText_of_isMajorBump ha hb h
  have hzero : leadingNumber " 00-rc.9" = 0 := by decide +kernel
  have hten : leadingNumber "010.Final" = 10 := by decide +kernel
  rw [hzero, hten] at hcompare
  exact ⟨ha, hb, h, hcompare, hne⟩

end Version

end MavenUpgrade

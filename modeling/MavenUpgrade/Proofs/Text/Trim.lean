import Mathlib
import MavenUpgrade.Text.Blank

/-!
# Texts and the blanks around them

A text is what remains of it when it is trimmed, between the blanks that are taken away
(`around_trim`). What is put in their midst instead comes out when the result is trimmed.
-/

namespace MavenUpgrade.Text

/-- The blanks that a text begins with. -/
def leadingBlanks (cs : List Char) : List Char :=
  cs.takeWhile isBlank

/-- The blanks that a text ends with, other than those it begins with. -/
def trailingBlanks (cs : List Char) : List Char :=
  ((trimStart cs).reverse.takeWhile isBlank).reverse

/-- Something else between the blanks of a text. -/
def around (cs inner : List Char) : List Char :=
  leadingBlanks cs ++ inner ++ trailingBlanks cs

/-- A text without blanks at its ends. -/
def IsTrimmed (cs : List Char) : Prop :=
  trim cs = cs

instance (cs : List Char) : Decidable (IsTrimmed cs) :=
  inferInstanceAs (Decidable (_ = _))

theorem isBlank_of_mem_leadingBlanks {cs : List Char} {c : Char} (h : c ∈ leadingBlanks cs) :
    isBlank c = true :=
  List.mem_takeWhile_imp h

theorem isBlank_of_mem_trailingBlanks {cs : List Char} {c : Char} (h : c ∈ trailingBlanks cs) :
    isBlank c = true :=
  List.mem_takeWhile_imp (List.mem_reverse.mp h)

theorem not_mem_leadingBlanks {c : Char} (h : isBlank c = false) (cs : List Char) :
    c ∉ leadingBlanks cs := by
  intro hm
  rw [isBlank_of_mem_leadingBlanks hm] at h
  cases h

theorem not_mem_trailingBlanks {c : Char} (h : isBlank c = false) (cs : List Char) :
    c ∉ trailingBlanks cs := by
  intro hm
  rw [isBlank_of_mem_trailingBlanks hm] at h
  cases h

/-- A text without the blanks it begins with goes on to its end. -/
theorem trim_append_trailingBlanks (cs : List Char) :
    trim cs ++ trailingBlanks cs = trimStart cs := by
  rw [trim, trimEnd, trailingBlanks, ← List.reverse_append, List.takeWhile_append_dropWhile,
    List.reverse_reverse]

/-- A text is its middle between its blanks. -/
theorem around_trim (cs : List Char) : around cs (trim cs) = cs := by
  rw [around, List.append_assoc, trim_append_trailingBlanks, trimStart, leadingBlanks,
    List.takeWhile_append_dropWhile]

/-- Trimming takes blanks away only. -/
theorem mem_trim_iff {c : Char} (h : isBlank c = false) {cs : List Char} :
    c ∈ trim cs ↔ c ∈ cs := by
  constructor
  · intro hm
    rw [← around_trim cs]
    exact List.mem_append_left _ (List.mem_append_right _ hm)
  · intro hm
    rw [← around_trim cs, around, List.mem_append, List.mem_append] at hm
    rcases hm with (hm | hm) | hm
    · exact absurd hm (not_mem_leadingBlanks h cs)
    · exact hm
    · exact absurd hm (not_mem_trailingBlanks h cs)

/-- The blanks that a text begins with are what trimming its start takes away. -/
theorem length_leadingBlanks (cs : List Char) :
    (leadingBlanks cs).length = cs.length - (trimStart cs).length := by
  have h := congrArg List.length (List.takeWhile_append_dropWhile (p := isBlank) (l := cs))
  rw [List.length_append] at h
  rw [leadingBlanks, trimStart]
  omega

/-- The blanks at both ends and the middle make up the length of a text. -/
theorem length_eq (cs : List Char) :
    (leadingBlanks cs).length + (trim cs).length + (trailingBlanks cs).length = cs.length := by
  have h := congrArg List.length (around_trim cs)
  rwa [around, List.length_append, List.length_append] at h

theorem trimEnd_append {inner after : List Char} (ha : ∀ c ∈ after, isBlank c = true)
    (hi : trimEnd inner = inner) : trimEnd (inner ++ after) = inner := by
  rw [trimEnd, List.reverse_append, List.dropWhile_append_of_pos
    (fun c hc => ha c (List.mem_reverse.mp hc))]
  exact hi

/-- Trimming the end of a text stops at the last character that is not blank. -/
theorem trimEnd_append_cons {c : Char} (hc : isBlank c = false) (cs rest : List Char) :
    trimEnd (cs ++ c :: rest) = cs ++ c :: trimEnd rest := by
  unfold trimEnd
  rw [List.reverse_append, List.reverse_cons, List.append_assoc, List.dropWhile_append]
  split
  · next hempty =>
    rw [List.isEmpty_iff.mp hempty]
    simp [hc]
  · simp

/-- A trimmed text stays when either end is trimmed. -/
theorem IsTrimmed.ends {cs : List Char} (h : IsTrimmed cs) :
    trimStart cs = cs ∧ trimEnd cs = cs := by
  have hlength := congrArg List.length h
  have hend : (trim cs).length ≤ (trimStart cs).length := by
    have hr : (trimStart cs).reverse.length = (trimStart cs).length := List.length_reverse
    rw [trim, trimEnd, List.length_reverse, ← hr]
    exact (List.dropWhile_sublist _).length_le
  have hstart : trimStart cs = cs := by
    refine (List.dropWhile_sublist isBlank).eq_of_length_le ?_
    show cs.length ≤ (trimStart cs).length
    omega
  refine ⟨hstart, ?_⟩
  have h' : trimEnd (trimStart cs) = cs := h
  rwa [hstart] at h'

/-- What remains of a trimmed text has no blanks at its ends. -/
theorem isTrimmed_trim (cs : List Char) : IsTrimmed (trim cs) := by
  have hend : trimEnd (trim cs) = trim cs := by
    rw [trim, trimEnd, trimEnd, List.reverse_reverse, List.dropWhile_idempotent]
  have hstart : trimStart (trim cs) = trim cs := by
    cases ht : trim cs with
    | nil => rfl
    | cons c rest =>
      -- it begins where the text without its leading blanks does
      have hc := List.head?_dropWhile_not isBlank cs
      have hcs := trim_append_trailingBlanks cs
      rw [ht, List.cons_append] at hcs
      have hcs' : cs.dropWhile isBlank = c :: (rest ++ trailingBlanks cs) := hcs.symm
      rw [hcs'] at hc
      exact List.dropWhile_cons_of_neg (Bool.eq_false_iff.mp hc)
  rw [IsTrimmed, trim, hstart, hend]

/-- A text without blanks is trimmed. -/
theorem isTrimmed_of_forall {cs : List Char} (h : ∀ c ∈ cs, isBlank c = false) :
    IsTrimmed cs := by
  have hkeep (ds : List Char) (hds : ∀ c ∈ ds, isBlank c = false) : ds.dropWhile isBlank = ds := by
    cases ds with
    | nil => rfl
    | cons d ds =>
      exact List.dropWhile_cons_of_neg (Bool.eq_false_iff.mp (hds d List.mem_cons_self))
  unfold IsTrimmed trim trimEnd trimStart
  rw [hkeep cs h, hkeep cs.reverse fun c hc => h c (List.mem_reverse.mp hc), List.reverse_reverse]

/-- Trimming a text does not reach what is appended to it without blanks, if the text itself does
not end in a blank. -/
theorem trim_append_cons {cs : List Char} (hend : ∀ c ∈ cs.getLast?, isBlank c = false) {d : Char}
    {ds : List Char} (hvisible : ∀ c ∈ d :: ds, isBlank c = false) :
    trim (cs ++ d :: ds) = trim cs ++ d :: ds := by
  have hd : isBlank d = false := hvisible d List.mem_cons_self
  have hds : trimEnd ds = ds :=
    (isTrimmed_of_forall fun c hc => hvisible c (List.mem_cons_of_mem d hc)).ends.2
  have hstart : trimStart (cs ++ d :: ds) = trimStart cs ++ d :: ds := by
    unfold trimStart
    rw [List.dropWhile_append, List.dropWhile_cons_of_neg (Bool.eq_false_iff.mp hd)]
    split
    · next hempty =>
      rw [List.isEmpty_iff.mp hempty]
      rfl
    · rfl
  have hkeep : trimEnd (trimStart cs) = trimStart cs := by
    rcases List.eq_nil_or_concat (trimStart cs) with hnil | ⟨rest, c, hlast⟩
    · rw [hnil]
      rfl
    · -- the text ends in the character that is left at the end
      have hcs : leadingBlanks cs ++ trimStart cs = cs := List.takeWhile_append_dropWhile
      rw [hlast, List.concat_eq_append] at hcs ⊢
      have hc : isBlank c = false := by
        apply hend
        rw [← hcs, ← List.append_assoc, List.getLast?_concat]
        rfl
      exact trimEnd_append_cons hc rest []
  unfold trim
  rw [hstart, trimEnd_append_cons hd, hds, hkeep]

/-- A text is trimmed to nothing exactly when it is all blank. -/
theorem trim_eq_nil_iff {cs : List Char} : trim cs = [] ↔ ∀ c ∈ cs, isBlank c = true := by
  constructor
  · intro h c hc
    have hstart := trim_append_trailingBlanks cs
    rw [h, List.nil_append] at hstart
    rw [← List.takeWhile_append_dropWhile (p := isBlank) (l := cs), List.mem_append] at hc
    rcases hc with hc | hc
    · exact isBlank_of_mem_leadingBlanks hc
    · have hc' : c ∈ trailingBlanks cs := by rwa [hstart]
      exact isBlank_of_mem_trailingBlanks hc'
  · intro h
    have hstart : trimStart cs = [] := List.dropWhile_eq_nil_iff.mpr h
    rw [trim, hstart]
    rfl

/-- What stands between blanks comes out when they are trimmed. -/
theorem trim_append_blanks {before inner after : List Char}
    (hbefore : ∀ c ∈ before, isBlank c = true) (hafter : ∀ c ∈ after, isBlank c = true)
    (h : IsTrimmed inner) (hne : inner ≠ []) : trim (before ++ inner ++ after) = inner := by
  obtain ⟨hstart, hend⟩ := h.ends
  have hs : trimStart (before ++ inner ++ after) = inner ++ after := by
    rw [List.append_assoc, trimStart, List.dropWhile_append_of_pos hbefore]
    obtain ⟨c, rest, rfl⟩ := List.exists_cons_of_ne_nil hne
    have hc : ¬ isBlank c = true := by
      intro hc
      rw [trimStart, List.dropWhile_cons_of_pos hc] at hstart
      have hle := (List.dropWhile_sublist (l := rest) isBlank).length_le
      rw [hstart, List.length_cons] at hle
      omega
    rw [List.cons_append, List.dropWhile_cons_of_neg hc]
  rw [trim, hs, trimEnd_append hafter hend]

/-- What is put between the blanks of a text comes out when it is trimmed. -/
theorem trim_around (cs : List Char) {inner : List Char} (h : IsTrimmed inner)
    (hne : inner ≠ []) : trim (around cs inner) = inner :=
  trim_append_blanks (fun _ hc => isBlank_of_mem_leadingBlanks hc)
    (fun _ hc => isBlank_of_mem_trailingBlanks hc) h hne

end MavenUpgrade.Text

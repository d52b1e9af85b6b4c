import Mathlib
import MavenUpgrade.Text.Lines

/-!
# Texts cut at separators

No piece holds a separator, a text without one is a single piece, and a text that is joined at a
separator has the pieces of both sides. The pieces joined again give the text back. Lines are cut at
line feeds, so none of them holds one.
-/

namespace MavenUpgrade.Text

variable {p : Char → Bool}

/-- No piece holds a separator. -/
theorem not_of_mem_splitWhere {cs piece : List Char} (h : piece ∈ splitWhere p cs) :
    ∀ c ∈ piece, p c = false := by
  induction cs generalizing piece with
  | nil =>
    obtain rfl := List.mem_singleton.mp h
    intro c hc
    cases hc
  | cons d cs ih =>
    rw [splitWhere] at h
    split at h
    · rcases List.mem_cons.mp h with rfl | h
      · intro c hc
        cases hc
      · exact ih h
    · next hd =>
      split at h
      · next first rest hs =>
        rw [hs] at ih
        rcases List.mem_cons.mp h with rfl | h
        · intro c hc
          rcases List.mem_cons.mp hc with rfl | hc
          · exact Bool.eq_false_iff.mpr hd
          · exact ih List.mem_cons_self c hc
        · exact ih (List.mem_cons_of_mem _ h)
      · next hs => exact absurd hs (splitWhere_ne_nil p cs)

/-- A character that is no separator is in one of the pieces. -/
theorem exists_mem_splitWhere {cs : List Char} {c : Char} (hc : c ∈ cs) (hp : p c = false) :
    ∃ piece ∈ splitWhere p cs, c ∈ piece := by
  induction cs with
  | nil => cases hc
  | cons d cs ih =>
    obtain ⟨first, rest, hs⟩ := List.exists_cons_of_ne_nil (splitWhere_ne_nil p cs)
    rw [hs] at ih
    rw [splitWhere, hs]
    rcases List.mem_cons.mp hc with rfl | hc
    · rw [if_neg (Bool.eq_false_iff.mp hp)]
      exact ⟨c :: first, List.mem_cons_self, List.mem_cons_self⟩
    · obtain ⟨piece, hpiece, hmem⟩ := ih hc
      split
      · exact ⟨piece, List.mem_cons_of_mem _ hpiece, hmem⟩
      · rcases List.mem_cons.mp hpiece with rfl | hpiece
        · exact ⟨d :: piece, List.mem_cons_self, List.mem_cons_of_mem d hmem⟩
        · exact ⟨piece, List.mem_cons_of_mem _ hpiece, hmem⟩

/-- A text without a separator is a single piece. -/
theorem splitWhere_of_forall {cs : List Char} (h : ∀ c ∈ cs, p c = false) :
    splitWhere p cs = [cs] := by
  induction cs with
  | nil => rfl
  | cons d cs ih =>
    have hd : ¬ p d = true := Bool.eq_false_iff.mp (h d List.mem_cons_self)
    rw [splitWhere, if_neg hd, ih fun c hc => h c (List.mem_cons_of_mem _ hc)]

/-- A text without the separator is a single piece. -/
theorem splitWhere_of_not_mem {sep : Char} {cs : List Char} (h : sep ∉ cs) :
    splitWhere (· == sep) cs = [cs] := by
  apply splitWhere_of_forall
  intro c hc
  rw [beq_eq_false_iff_ne]
  rintro rfl
  exact h hc

/-- No piece holds the separator. -/
theorem not_mem_of_mem_splitWhere {sep : Char} {cs piece : List Char}
    (h : piece ∈ splitWhere (· == sep) cs) : sep ∉ piece := by
  intro hm
  have hsep := not_of_mem_splitWhere h sep hm
  rw [beq_self_eq_true] at hsep
  cases hsep

/-- A text that is joined at a separator has the pieces of both sides. -/
theorem splitWhere_append_cons {sep : Char} (hsep : p sep = true) (cs ds : List Char) :
    splitWhere p (cs ++ sep :: ds) = splitWhere p cs ++ splitWhere p ds := by
  induction cs with
  | nil =>
    show splitWhere p (sep :: ds) = [] :: splitWhere p ds
    rw [splitWhere, if_pos hsep]
  | cons c cs ih =>
    rw [List.cons_append, splitWhere, splitWhere, ih]
    split
    · rfl
    · cases hs : splitWhere p cs with
      | nil => exact absurd hs (splitWhere_ne_nil p cs)
      | cons first rest => rfl

/-- The pieces of a text joined again by the separator give the text back. -/
theorem intercalate_splitWhere (sep : Char) (cs : List Char) :
    [sep].intercalate (splitWhere (· == sep) cs) = cs := by
  induction cs with
  | nil => rfl
  | cons c cs ih =>
    obtain ⟨first, rest, hs⟩ := List.exists_cons_of_ne_nil (splitWhere_ne_nil (· == sep) cs)
    rw [hs] at ih
    rw [splitWhere, hs]
    split
    · next hc =>
      rw [List.intercalate_cons_cons, ih, eq_of_beq hc]
      rfl
    · cases rest with
      | nil => exact congrArg (c :: ·) ih
      | cons second rest =>
        rw [List.intercalate_cons_cons] at ih ⊢
        exact congrArg (c :: ·) ih

/-- No line holds a line feed. -/
theorem not_mem_of_mem_lines {cs line : List Char} (h : line ∈ lines cs) : '\n' ∉ line := by
  have hpieces : ∀ piece ∈ splitWhere (· == '\n') cs, '\n' ∉ piece := fun piece hp =>
    not_mem_of_mem_splitWhere hp
  unfold lines at h
  rcases List.mem_append.mp h with h | h
  · obtain ⟨piece, hpiece, rfl⟩ := List.mem_map.mp h
    have hnot := hpieces piece (List.mem_of_mem_dropLast hpiece)
    unfold dropReturn
    split
    · intro hmem
      exact hnot (List.mem_of_mem_dropLast hmem)
    · exact hnot
  · have hlast : (splitWhere (· == '\n') cs).getLastD [] ∈ splitWhere (· == '\n') cs := by
      rw [List.getLastD_eq_getLast?, List.getLast?_eq_some_getLast (splitWhere_ne_nil _ _)]
      exact List.getLast_mem _
    split at h
    · cases h
    · rw [List.mem_singleton.mp h]
      exact hpieces _ hlast

end MavenUpgrade.Text

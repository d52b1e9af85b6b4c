import Mathlib
import MavenUpgrade.Pom.Edit
import MavenUpgrade.Xml.Reference

/-!
# What written character data says

A text that is escaped says itself again, and so do plain characters around it (`data?_around`).
Conversely, data without references that begins with what it says has no line break to be read
(`plain_of_data?`), and data with references says less than is written (`length_le_of_readData`).
-/

namespace MavenUpgrade.Xml

/-! ## Single characters -/

/-- No carriage return waits at the end of the text written so far. -/
def IsSettled (written : List Char) : Prop :=
  written.head? ≠ some '\r'

theorem isSettled_cons {c : Char} (h : c ≠ '\r') (written : List Char) :
    IsSettled (c :: written) :=
  fun he => h (Option.some.inj he)

/-- Behind settled text a character is written as it is. -/
theorem pushChar_of_isSettled {written : List Char} {c : Char} (last : Bool)
    (hw : IsSettled written) (hc : c ≠ '\r') : pushChar written c last = c :: written := by
  have hlast : (last && c == '\r') = false := by simp [hc]
  unfold pushChar
  split
  · exact absurd rfl hw
  · rw [hlast, if_neg Bool.false_ne_true]

/-- A plain character says itself. -/
theorem readData_cons {written : List Char} {c : Char} (literal : Bool) (rest : List Char)
    (hw : IsSettled written) (ha : c ≠ '&') (hc : c ≠ '\r') :
    readData written literal (c :: rest) = readData (c :: written) false rest := by
  rw [readData, if_neg ha, pushChar_of_isSettled _ hw hc]
  split <;> rfl

/-- A reference says its character. -/
theorem readData_reference {written cs rest : List Char} {c : Char} (literal : Bool)
    (h : reference? cs = some (c, rest)) :
    readData written literal ('&' :: cs) = readData (c :: written) true rest := by
  rw [readData, if_pos rfl, h]

/-- An escaped character says itself. -/
theorem readData_escapeChar {written : List Char} {c : Char} (literal : Bool) (rest : List Char)
    (hw : IsSettled written) (hc : c ≠ '\r') :
    ∃ literal', readData written literal (escapeChar c ++ rest) =
      readData (c :: written) literal' rest := by
  unfold escapeChar
  split
  · exact ⟨true, readData_reference literal rfl⟩
  · exact ⟨true, readData_reference literal rfl⟩
  · exact ⟨true, readData_reference literal rfl⟩
  · next hamp _ _ => exact ⟨false, readData_cons literal rest hw hamp hc⟩

/-! ## Whole texts -/

/-- Plain characters say themselves. -/
theorem readData_append {written : List Char} (cs : List Char) (literal : Bool)
    (rest : List Char) (hw : IsSettled written) (ha : '&' ∉ cs) (hc : '\r' ∉ cs) :
    readData written literal (cs ++ rest) =
        readData (cs.reverse ++ written) (literal && cs.isEmpty) rest ∧
      IsSettled (cs.reverse ++ written) := by
  induction cs generalizing written literal with
  | nil =>
    refine ⟨?_, hw⟩
    rw [List.isEmpty_nil, Bool.and_true]
    rfl
  | cons c cs ih =>
    rw [List.mem_cons, not_or] at ha hc
    have hr : c ≠ '\r' := fun h => hc.1 h.symm
    obtain ⟨he, hs⟩ := ih false (isSettled_cons hr written) ha.2 hc.2
    rw [List.reverse_cons, List.append_assoc]
    refine ⟨?_, hs⟩
    rw [List.cons_append, readData_cons literal _ hw (fun h => ha.1 h.symm) hr, he,
      List.isEmpty_cons, Bool.and_false, Bool.false_and]
    rfl

/-- An escaped text says itself. -/
theorem readData_escaped {written : List Char} (cs : List Char) (literal : Bool)
    (rest : List Char) (hw : IsSettled written) (hc : '\r' ∉ cs) :
    ∃ literal', readData written literal (cs.flatMap escapeChar ++ rest) =
        readData (cs.reverse ++ written) literal' rest ∧ IsSettled (cs.reverse ++ written) := by
  induction cs generalizing written literal with
  | nil => exact ⟨literal, rfl, hw⟩
  | cons c cs ih =>
    rw [List.mem_cons, not_or] at hc
    obtain ⟨middle, hm⟩ := readData_escapeChar literal (cs.flatMap escapeChar ++ rest) hw
      (fun h => hc.1 h.symm)
    have hsettled : IsSettled (c :: written) := isSettled_cons (fun h => hc.1 h.symm) written
    obtain ⟨literal', he, hs⟩ := ih middle hsettled hc.2
    refine ⟨literal', ?_, ?_⟩
    · rw [List.flatMap_cons, List.append_assoc, hm, he, List.reverse_cons, List.append_assoc]
      rfl
    · rw [List.reverse_cons, List.append_assoc]
      exact hs

/-- **An escaped text between plain characters says itself between them.** -/
theorem data?_around {before cs after : List Char} (hb : '&' ∉ before) (hb' : '\r' ∉ before)
    (hc : '\r' ∉ cs) (ha : '&' ∉ after) (ha' : '\r' ∉ after) :
    data? (before ++ cs.flatMap escapeChar ++ after) = some (before ++ cs ++ after) := by
  have hnil : IsSettled [] := by
    intro h
    cases h
  obtain ⟨h₁, s₁⟩ := readData_append before false (cs.flatMap escapeChar ++ after) hnil hb hb'
  obtain ⟨literal, h₂, s₂⟩ := readData_escaped cs (false && before.isEmpty) after s₁ hc
  have h₃ := (readData_append after literal [] s₂ ha ha').1
  rw [List.append_nil after] at h₃
  rw [data?, List.append_assoc, h₁, h₂, h₃, readData]
  simp

/-- Plain characters are what they say. -/
theorem data?_of_plain {cs : List Char} (ha : '&' ∉ cs) (hc : '\r' ∉ cs) : data? cs = some cs := by
  have h := data?_around ha hc List.not_mem_nil List.not_mem_nil List.not_mem_nil
  rwa [List.flatMap_nil, List.append_nil, List.append_nil] at h

/-! ## Line breaks -/

/-- Settled text stays as it is when more is written behind it. -/
theorem suffix_pushChar {settled written : List Char} (c : Char) (last : Bool)
    (hs : IsSettled settled) (h : settled <:+ written) : settled <:+ pushChar written c last := by
  unfold pushChar
  split
  · next before =>
    -- the return that waits does not belong to the settled text
    have hb : settled <:+ before := by
      rcases List.suffix_cons_iff.mp h with rfl | hb
      · exact absurd rfl hs
      · exact hb
    have hn (cs : List Char) : settled <:+ cs ++ before := hb.trans (List.suffix_append cs before)
    split
    · exact hn ['\n']
    · split
      · exact hn ['\n', '\n']
      · exact hn [c, '\n']
  · split
    · exact h.trans (List.suffix_cons _ _)
    · exact h.trans (List.suffix_cons _ _)

theorem prefix_of_readData {settled written cs said : List Char} {literal : Bool}
    (hs : IsSettled settled) (h : settled <:+ written)
    (hr : readData written literal cs = some said) : settled.reverse <+: said := by
  fun_induction readData written literal cs with
  | case1 written =>
    rw [← Option.some.inj hr]
    exact List.reverse_prefix.mpr h
  | case2 written literal rest r more hm ih => exact ih (h.trans (List.suffix_cons _ _)) hr
  | case3 => cases hr
  | case4 written c rest hne ih => exact ih (h.trans (List.suffix_cons _ _)) hr
  | case5 written literal c rest hne hl ih => exact ih (suffix_pushChar c _ hs h) hr

/-- A carriage return without a reference behind it says a line feed. -/
theorem prefix_of_return {written rest said : List Char} (hw : IsSettled written)
    (ha : '&' ∉ rest)
    (h : readData written false ('\r' :: rest) = some said) :
    written.reverse ++ ['\n'] <+: said := by
  have hfeed : IsSettled ('\n' :: written) := isSettled_cons (by decide) written
  have hsaid {written' : List Char} {literal : Bool} {cs : List Char}
      (hsuffix : '\n' :: written <:+ written')
      (hr : readData written' literal cs = some said) : written.reverse ++ ['\n'] <+: said := by
    rw [← List.reverse_cons]
    exact prefix_of_readData hfeed hsuffix hr
  have hpush (last : Bool) : pushChar written '\r' last =
      if last then '\n' :: written else '\r' :: written := by
    unfold pushChar
    split
    · exact absurd rfl hw
    · cases last <;> rfl
  rw [readData, if_neg (by decide), if_neg Bool.false_ne_true, hpush] at h
  cases rest with
  | nil => exact hsaid (List.suffix_refl _) h
  | cons c rest =>
    rw [List.mem_cons, not_or] at ha
    rw [List.isEmpty_cons, if_neg Bool.false_ne_true, readData, if_neg (fun he => ha.1 he.symm),
      if_neg Bool.false_ne_true] at h
    refine hsaid ?_ h
    show '\n' :: written <:+ (if c = '\n' then '\n' :: written
      else if (rest.isEmpty && c == '\r') = true then '\n' :: '\n' :: written
      else c :: '\n' :: written)
    split
    · exact List.suffix_refl _
    · split
      · exact List.suffix_cons _ _
      · exact List.suffix_cons _ _

/-- **Data without references that begins with what it says is plain**, and says no less than
itself. -/
theorem plain_of_data? {cs said more : List Char} (ha : '&' ∉ cs) (h : data? cs = some said)
    (he : said ++ more = cs) : '\r' ∉ cs ∧ more = [] := by
  have hnil : IsSettled [] := by
    intro h
    cases h
  -- a return is read as a line feed, which shows at the first one
  have hplain : '\r' ∉ cs := by
    intro hc
    obtain ⟨before, rest, rfl, hb⟩ := List.eq_append_cons_of_mem hc
    have ha' : '&' ∉ before ∧ '&' ∉ rest := by
      rw [List.mem_append, List.mem_cons] at ha
      exact ⟨fun hm => ha (Or.inl hm), fun hm => ha (Or.inr (Or.inr hm))⟩
    obtain ⟨hb', hs⟩ := readData_append before false ('\r' :: rest) hnil ha'.1 hb
    rw [data?, hb', Bool.false_and] at h
    obtain ⟨t, ht⟩ := prefix_of_return hs ha'.2 h
    rw [List.append_nil, List.reverse_reverse] at ht
    rw [← ht, List.append_assoc, List.append_assoc] at he
    exact absurd (List.cons.inj (List.append_cancel_left he)).1 (by decide)
  refine ⟨hplain, ?_⟩
  rw [data?_of_plain ha hplain] at h
  rw [← Option.some.inj h] at he
  exact List.append_right_eq_self.mp he

/-! ## How much is said -/

theorem length_pushChar_le (written : List Char) (c : Char) (last : Bool) :
    (pushChar written c last).length ≤ written.length + 1 := by
  unfold pushChar
  split
  · split
    · exact Nat.le_succ _
    · split
      · exact le_refl _
      · exact le_refl _
  · split
    · exact le_refl _
    · exact le_refl _

/-- Character data says no more than is written, and less if a reference is. -/
theorem length_le_of_readData {written cs said : List Char} {literal : Bool}
    (h : readData written literal cs = some said) :
    said.length ≤ written.length + cs.length ∧
      ('&' ∈ cs → said.length < written.length + cs.length) := by
  fun_induction readData written literal cs with
  | case1 written =>
    obtain rfl := Option.some.inj h
    rw [List.length_reverse, List.length_nil]
    exact ⟨le_refl _, fun ha => absurd ha List.not_mem_nil⟩
  | case2 written literal rest r more hm ih =>
    -- a reference is longer than its character
    have hshort := length_lt_of_reference? hm
    obtain ⟨hle, -⟩ := ih h
    rw [List.length_cons] at hle ⊢
    exact ⟨by omega, fun _ => by omega⟩
  | case3 => cases h
  | case4 written c rest hne ih =>
    obtain ⟨hle, hlt⟩ := ih h
    rw [List.length_cons] at hle hlt ⊢
    refine ⟨by omega, fun ha => ?_⟩
    have := hlt ((List.mem_cons.mp ha).resolve_left (Ne.symm hne))
    omega
  | case5 written literal c rest hne hl ih =>
    obtain ⟨hle, hlt⟩ := ih h
    have := length_pushChar_le written c rest.isEmpty
    rw [List.length_cons]
    refine ⟨by omega, fun ha => ?_⟩
    have := hlt ((List.mem_cons.mp ha).resolve_left (Ne.symm hne))
    omega

/-- Character data with a reference does not say itself. -/
theorem not_mem_of_data?_self {cs : List Char} (h : data? cs = some cs) : '&' ∉ cs := by
  intro ha
  have := (length_le_of_readData h).2 ha
  rw [List.length_nil] at this
  omega

/-- A literal section says no more than stands in it. -/
theorem length_readCdata_le (written cs : List Char) :
    (readCdata written cs).length ≤ written.length + cs.length := by
  induction cs generalizing written with
  | nil => exact (List.length_reverse).le
  | cons c cs ih =>
    have := ih (pushChar written c cs.isEmpty)
    have := length_pushChar_le written c cs.isEmpty
    rw [readCdata, List.length_cons]
    omega

end MavenUpgrade.Xml

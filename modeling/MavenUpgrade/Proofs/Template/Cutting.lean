import Mathlib
import MavenUpgrade.Proofs.Template.Preference

/-!
# The only cut of a text

Placeholders do not overlap, so a text has a placeholder at every place where one begins
(`Placeholder.occurrences_eq_namesAt`), although it is searched from the left only. For the same
reason there is one way only to cut a text into literal pieces and placeholders so that nothing is
lost and no placeholder is left in a literal piece (`Template.eq_ofText_iff`).
-/

namespace MavenUpgrade

namespace Placeholder

/-! ## Where placeholders begin -/

/-- A text begins with a placeholder exactly when it is one, with a name, and a rest. -/
theorem atStart?_eq_some_iff {cs name rest : List Char} :
    atStart? cs = some (name, rest) ↔ IsName name ∧ cs = enclose name ++ rest := by
  constructor
  · intro h
    exact ⟨isName_of_atStart? h, eq_of_atStart? h⟩
  · rintro ⟨hname, rfl⟩
    exact atStart?_enclose hname rest

/-- The dollar sign of a placeholder is its first character only. -/
theorem not_mem_behind_dollar {name : List Char} (h : IsName name) :
    '$' ∉ '{' :: (name ++ closing) := by
  intro hmem
  rcases List.mem_cons.mp hmem with hbrace | hmem
  · exact absurd hbrace (by decide)
  · rcases List.mem_append.mp hmem with hmem | hclosing
    · exact absurd (h.2 _ hmem) (by decide)
    · exact absurd hclosing (by decide)

/-- **Placeholders do not overlap**: where a text begins with a placeholder and another one begins
later, the first one stands in what is before the other. -/
theorem prefix_of_append_eq {before name rest name' rest' : List Char} (hbefore : before ≠ [])
    (hname' : IsName name') (h : before ++ (enclose name ++ rest) = enclose name' ++ rest') :
    enclose name' <+: before := by
  rcases List.append_eq_append_iff.mp h with ⟨inner, hinner, hrest⟩ | ⟨inner, hinner, -⟩
  · cases inner with
    | nil =>
      rw [hinner, List.append_nil]
    | cons c inner =>
      -- the second placeholder would begin inside of the first one, with a dollar sign
      obtain rfl : '$' = c := (List.cons.inj hrest).1
      obtain ⟨b, before, rfl⟩ := List.exists_cons_of_ne_nil hbefore
      have hbehind : '{' :: (name' ++ closing) = before ++ '$' :: inner := (List.cons.inj hinner).2
      refine absurd ?_ (not_mem_behind_dollar hname')
      rw [hbehind]
      exact List.mem_append_right _ List.mem_cons_self
  · exact ⟨inner, hinner.symm⟩

/-- A placeholder is a part of a text. -/
def StandsIn (cs : List Char) : Prop :=
  ∃ name, IsName name ∧ enclose name <:+: cs

/-! ## The first placeholder -/

/-- The first placeholder of a text stands no later than any other one. -/
theorem exists_first?_append {name : List Char} (h : IsName name) (before rest : List Char) :
    ∃ b n r, first? (before ++ (enclose name ++ rest)) = some (b, n, r) ∧
      b.length ≤ before.length := by
  induction before with
  | nil => exact ⟨[], name, rest, first?_of_atStart? (atStart?_enclose h rest), Nat.le_refl _⟩
  | cons c before ih =>
    cases hs : atStart? (c :: (before ++ (enclose name ++ rest))) with
    | some found => exact ⟨[], found.1, found.2, first?_of_atStart? hs, Nat.zero_le _⟩
    | none =>
      obtain ⟨b, n, r, hf, hle⟩ := ih
      refine ⟨c :: b, n, r, ?_, Nat.succ_le_succ hle⟩
      rw [List.cons_append, first?, hs, hf]
      rfl

/-- No placeholder is a part of what stands before the first one. -/
theorem not_standsIn_of_first? {cs before name rest : List Char}
    (h : first? cs = some (before, name, rest)) : ¬ StandsIn before := by
  rintro ⟨n, hn, a, b, rfl⟩
  obtain ⟨b', n', r', hf, hle⟩ := exists_first?_append hn a (b ++ (enclose name ++ rest))
  rw [eq_of_first? h, List.append_assoc, List.append_assoc, List.append_assoc, hf] at h
  obtain ⟨rfl, -⟩ := Prod.mk.inj (Option.some.inj h)
  rw [List.length_append, List.length_append, enclose, List.length_append, List.length_append,
    opening] at hle
  simp only [List.length_cons] at hle
  omega

/-- A text has no first placeholder exactly when no placeholder is a part of it. -/
theorem first?_eq_none_iff (cs : List Char) : first? cs = none ↔ ¬ StandsIn cs := by
  constructor
  · rintro h ⟨name, hname, before, rest, rfl⟩
    obtain ⟨b, n, r, hf, -⟩ := exists_first?_append hname before rest
    rw [List.append_assoc, hf] at h
    cases h
  · intro h
    cases hf : first? cs with
    | none => rfl
    | some found =>
      obtain ⟨before, name, rest⟩ := found
      exact absurd ⟨name, isName_of_first? hf, before, rest, (eq_of_first? hf).symm⟩ h

/-- Behind a text that no placeholder is a part of, a placeholder is the first one. -/
theorem first?_append_enclose {before name : List Char} (hbefore : ¬ StandsIn before)
    (hname : IsName name) (rest : List Char) :
    first? (before ++ (enclose name ++ rest)) = some (before, name, rest) := by
  induction before with
  | nil => exact first?_of_atStart? (atStart?_enclose hname rest)
  | cons c before ih =>
    have hnone : atStart? (c :: (before ++ (enclose name ++ rest))) = none := by
      cases hs : atStart? (c :: (before ++ (enclose name ++ rest))) with
      | none => rfl
      | some found =>
        obtain ⟨hn, he⟩ := atStart?_eq_some_iff.mp hs
        have hprefix := prefix_of_append_eq (List.cons_ne_nil c before) hn he
        exact absurd ⟨found.1, hn, hprefix.isInfix⟩ hbefore
    have htail : ¬ StandsIn before := fun ⟨n, hn, hin⟩ => hbefore ⟨n, hn, List.infix_cons hin⟩
    rw [List.cons_append, first?, hnone, ih htail]
    rfl

/-! ## All placeholders -/

/-- The names of the placeholders that begin somewhere in a text, from the left. -/
def namesAt (cs : List Char) : List String :=
  cs.tails.filterMap fun part => (atStart? part).map fun found => String.ofList found.1

theorem namesAt_cons_of_none {c : Char} {cs : List Char} (h : atStart? (c :: cs) = none) :
    namesAt (c :: cs) = namesAt cs := by
  rw [namesAt, List.tails_cons, List.filterMap_cons, h]
  rfl

/-- No placeholder begins where no dollar sign stands. -/
theorem namesAt_append_of_not_mem {cs : List Char} (h : '$' ∉ cs) (rest : List Char) :
    namesAt (cs ++ rest) = namesAt rest := by
  induction cs with
  | nil => rfl
  | cons c cs ih =>
    have hnone : atStart? (c :: (cs ++ rest)) = none := by
      cases hs : atStart? (c :: (cs ++ rest)) with
      | none => rfl
      | some found =>
        obtain ⟨rfl, -⟩ := List.cons.inj (eq_of_atStart? hs)
        exact absurd List.mem_cons_self h
    rw [List.cons_append, namesAt_cons_of_none hnone, ih fun hc => h (List.mem_cons_of_mem c hc)]

/-- Where a placeholder begins, the next ones begin behind it. -/
theorem namesAt_enclose_append {name : List Char} (h : IsName name) (rest : List Char) :
    namesAt (enclose name ++ rest) = String.ofList name :: namesAt rest := by
  have hs := atStart?_enclose h rest
  have he : enclose name ++ rest = '$' :: ('{' :: (name ++ closing) ++ rest) := rfl
  rw [he] at hs ⊢
  rw [namesAt, List.tails_cons, List.filterMap_cons, hs]
  exact congrArg (String.ofList name :: ·) (namesAt_append_of_not_mem (not_mem_behind_dollar h) rest)

/-- No placeholder begins in what stands before the first one. -/
theorem namesAt_of_first? {cs before name rest : List Char}
    (h : first? cs = some (before, name, rest)) :
    namesAt cs = String.ofList name :: namesAt rest := by
  induction cs generalizing before with
  | nil => cases h
  | cons c cs ih =>
    cases hs : atStart? (c :: cs) with
    | some found =>
      rw [first?_of_atStart? hs] at h
      obtain rfl : found = (name, rest) := (Prod.mk.inj (Option.some.inj h)).2
      obtain ⟨hname, he⟩ := atStart?_eq_some_iff.mp hs
      rw [he, namesAt_enclose_append hname]
    | none =>
      rw [first?, hs] at h
      obtain ⟨⟨b, n, r⟩, hf, he⟩ := Option.map_eq_some_iff.mp h
      obtain ⟨-, rfl, rfl⟩ : c :: b = before ∧ n = name ∧ r = rest := by simpa using he
      rw [namesAt_cons_of_none hs, ih hf]

/-- No placeholder begins in a text that has no first one. -/
theorem namesAt_of_first?_eq_none {cs : List Char} (h : first? cs = none) : namesAt cs = [] := by
  induction cs with
  | nil => rfl
  | cons c cs ih =>
    cases hs : atStart? (c :: cs) with
    | some found =>
      rw [first?_of_atStart? hs] at h
      cases h
    | none =>
      rw [first?, hs] at h
      rw [namesAt_cons_of_none hs, ih (Option.map_eq_none_iff.mp h)]

/-- **The search from the left finds a placeholder wherever one begins.** -/
theorem occurrences_eq_namesAt (cs : List Char) : occurrences cs = namesAt cs := by
  fun_induction occurrences cs with
  | case1 cs before name rest h ih => rw [namesAt_of_first? h, ih]
  | case2 cs h => exact (namesAt_of_first?_eq_none h).symm

end Placeholder

open Placeholder (IsName StandsIn)

namespace Template

/-! ## Cuts -/

/-- Pieces as they are cut from a text: no literal piece is empty, follows another one or holds a
placeholder, and every placeholder has a name. -/
structure AreCut (segments : List Segment) : Prop where
  literal_ne_empty : Segment.literal "" ∉ segments
  apart : segments.IsChain fun s t => s.isPlaceholder = true ∨ t.isPlaceholder = true
  names : ∀ name, Segment.placeholder name ∈ segments → IsName name.toList
  free : ∀ text, Segment.literal text ∈ segments → ¬ StandsIn text.toList

/-- What follows the first of the pieces is cut as well. -/
theorem AreCut.tail {s : Segment} {rest : List Segment} (h : AreCut (s :: rest)) :
    AreCut rest where
  literal_ne_empty hm := h.literal_ne_empty (List.mem_cons_of_mem s hm)
  apart := h.apart.tail
  names name hm := h.names name (List.mem_cons_of_mem s hm)
  free text hm := h.free text (List.mem_cons_of_mem s hm)

/-- A placeholder stands between any pieces that are cut. -/
theorem AreCut.append_placeholder {before rest : List Segment} {name : String}
    (hbefore : AreCut before) (hname : IsName name.toList) (hrest : AreCut rest) :
    AreCut (before ++ .placeholder name :: rest) where
  literal_ne_empty hm := by
    rcases List.mem_append.mp hm with hm | hm
    · exact hbefore.literal_ne_empty hm
    · rcases List.mem_cons.mp hm with he | hm
      · cases he
      · exact hrest.literal_ne_empty hm
  apart := by
    refine List.isChain_append.mpr ⟨hbefore.apart, List.isChain_cons.mpr ⟨?_, hrest.apart⟩, ?_⟩
    · exact fun _ _ => Or.inl rfl
    · intro _ _ t ht
      obtain rfl := Option.some.inj ht
      exact Or.inr rfl
  names n hm := by
    rcases List.mem_append.mp hm with hm | hm
    · exact hbefore.names n hm
    · rcases List.mem_cons.mp hm with hn | hm
      · rw [Segment.placeholder.inj hn]
        exact hname
      · exact hrest.names n hm
  free text hm := by
    rcases List.mem_append.mp hm with hm | hm
    · exact hbefore.free text hm
    · rcases List.mem_cons.mp hm with he | hm
      · cases he
      · exact hrest.free text hm

/-- A text that no placeholder is a part of is a single piece, or none if it is empty. -/
theorem areCut_literalPiece {cs : List Char} (h : ¬ StandsIn cs) : AreCut (literalPiece cs) := by
  rw [literalPiece]
  split
  · exact ⟨List.not_mem_nil, .nil, fun _ hm => absurd hm List.not_mem_nil,
      fun _ hm => absurd hm List.not_mem_nil⟩
  · next hne =>
    refine ⟨fun hm => hne ?_, .singleton _, fun name hm => ?_, fun text hm => ?_⟩
    · have he : "" = String.ofList cs := Segment.literal.inj (List.mem_singleton.mp hm)
      rw [← String.toList_ofList (l := cs), ← he]
      rfl
    · cases List.mem_singleton.mp hm
    · rw [Segment.literal.inj (List.mem_singleton.mp hm), String.toList_ofList]
      exact h

/-- A text is cut into its pieces. -/
theorem areCut_segmentsOf (cs : List Char) : AreCut (segmentsOf cs) := by
  fun_induction segmentsOf cs with
  | case1 cs before name rest h ih =>
    have hname : IsName (String.ofList name).toList := by
      rw [String.toList_ofList]
      exact Placeholder.isName_of_first? h
    exact (areCut_literalPiece (Placeholder.not_standsIn_of_first? h)).append_placeholder hname ih
  | case2 cs h => exact areCut_literalPiece ((Placeholder.first?_eq_none_iff cs).mp h)

/-- What stands before a placeholder is a piece, unless a placeholder is a part of it. -/
theorem segmentsOf_append_enclose {before name : List Char} (hbefore : ¬ StandsIn before)
    (hname : IsName name) (rest : List Char) :
    segmentsOf (before ++ (Placeholder.enclose name ++ rest)) =
      literalPiece before ++ segmentsOf (Placeholder.enclose name ++ rest) := by
  rw [segmentsOf_enclose_append hname, segmentsOf,
    Placeholder.first?_append_enclose hbefore hname rest]

/-- **Cut pieces are the pieces of the text that they make up.** -/
theorem AreCut.segmentsOf_filling {segments : List Segment} (h : AreCut segments) :
    segmentsOf (filling (fun _ => none) segments) = segments := by
  induction segments with
  | nil => exact segmentsOf_nil
  | cons s rest ih =>
    have hrest := ih h.tail
    cases s with
    | placeholder name =>
      have hname := h.names name List.mem_cons_self
      rw [filling_placeholder_cons, segmentsOf_enclose_append hname, hrest, String.ofList_toList]
    | literal text =>
      have hfree := h.free text List.mem_cons_self
      have hpiece : literalPiece text.toList = [.literal text] := by
        have hne : text ≠ "" := fun he => h.literal_ne_empty (he ▸ List.mem_cons_self)
        rw [literalPiece, if_neg, String.ofList_toList]
        rwa [List.isEmpty_iff, String.toList_eq_nil_iff]
      show segmentsOf (text.toList ++ filling _ rest) = _
      cases rest with
      | nil =>
        show segmentsOf (text.toList ++ []) = _
        rw [List.append_nil, segmentsOf, (Placeholder.first?_eq_none_iff _).mpr hfree]
        exact hpiece
      | cons t rest =>
        cases t with
        | literal other =>
          -- two literal pieces do not follow each other
          rcases (List.isChain_cons_cons.mp h.apart).1 with hs | hs <;> cases hs
        | placeholder name =>
          have hname := h.names name (List.mem_cons_of_mem _ List.mem_cons_self)
          rw [filling_placeholder_cons] at hrest ⊢
          rw [segmentsOf_append_enclose hfree hname, hpiece, hrest]
          rfl

/-- **A text has no other cut than its pieces.** -/
theorem eq_ofText_iff (t : Template) (text : String) :
    t = ofText text ↔ t.render [] = text ∧ AreCut t.segments := by
  rw [render_eq_iff]
  constructor
  · rintro rfl
    exact ⟨filling_segmentsOf text.toList, areCut_segmentsOf text.toList⟩
  · rintro ⟨hfilling, hcut⟩
    have hsegments : segmentsOf text.toList = t.segments := by
      rw [← hfilling]
      exact hcut.segmentsOf_filling
    rw [ofText, hsegments]

/-- The names of a template are those of the text that it is cut from, in the same order. -/
theorem placeholders_ofText (text : String) :
    (ofText text).placeholders = Placeholder.names text := by
  rw [placeholders, Placeholder.names, occurrences_eq]
  rfl

/-- **A text that is cut into pieces loses nothing.** Its template renders to the text itself when no
placeholder has a value; no literal piece is empty, and no two follow each other; and the names are
those of the text in the same order, which are the names of all placeholders that begin anywhere in
it. No other template renders to the text with its literal pieces apart, not empty and free of
placeholders. -/
theorem ofText_loses_nothing (text : String) :
    (ofText text).render [] = text ∧
      Segment.literal "" ∉ (ofText text).segments ∧
      (ofText text).segments.IsChain (fun s t => s.isPlaceholder = true ∨ t.isPlaceholder = true) ∧
      (ofText text).placeholders = Placeholder.names text ∧
      Placeholder.names text = distinct (Placeholder.namesAt text.toList) ∧
      ∀ t : Template, t = ofText text ↔ t.render [] = text ∧ AreCut t.segments := by
  obtain ⟨hrender, hcut⟩ := (eq_ofText_iff (ofText text) text).mp rfl
  refine ⟨hrender, hcut.literal_ne_empty, hcut.apart, placeholders_ofText text, ?_,
    fun t => eq_ofText_iff t text⟩
  rw [Placeholder.names, Placeholder.occurrences_eq_namesAt]

/-- What is opened and not closed, and what has no name, stays in a literal piece. -/
example : (ofText "$\x7ba$\x7bb\x7d$\x7bc\x7d\x7d$\x7b\x7d$\x7bd").segments =
    [.literal "$\x7ba", .placeholder "b", .placeholder "c", .literal "\x7d$\x7b\x7d$\x7bd"] := by
  decide +kernel

end Template

end MavenUpgrade

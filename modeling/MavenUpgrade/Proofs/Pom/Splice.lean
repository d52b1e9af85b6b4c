import Mathlib
import MavenUpgrade.Proofs.Xml.Rewriting

/-!
# Splicing edits into a document

Edits that follow each other, each of which covers the middle of a piece of character data, put the
new texts into these pieces and leave everything else as it is (`splice_eq_rewriteAll`).
-/

namespace MavenUpgrade.Edit

open Text (around leadingBlanks trailingBlanks trim)
open Xml (Piece Renewal)

/-- The span of what a text says, without the blanks around it. -/
def middleOf (start : Nat) (source : List Char) : Span where
  start := start + (leadingBlanks source).length
  stop := start + (leadingBlanks source).length + (trim source).length

/-- Edits that put new texts into pieces: they follow each other, each of them replaces the middle
of a piece by its new text, and no piece with a new text is left out. -/
structure Realizes (new : Renewal) (places : List (Nat × Piece)) (edits : List Edit) : Prop where
  apart : edits.Pairwise fun e f => e.span.stop ≤ f.span.start
  place : ∀ e ∈ edits, ∃ start piece v, (start, piece) ∈ places ∧
    new.at? start piece.chars = some v ∧ e.span = middleOf start piece.chars ∧
      e.replacement = v.flatMap escapeChar
  edit : ∀ start piece, (start, piece) ∈ places → (new.at? start piece.chars).isSome = true →
    ∃ e ∈ edits, e.span = middleOf start piece.chars

/-- A piece with a new text says something. -/
theorem trim_ne_nil_of_at? {new : Renewal} {start : Nat} {source v : List Char}
    (h : new.at? start source = some v) : trim source ≠ [] := by
  rw [Renewal.at?] at h
  split at h
  · cases h
  · next hne => exact hne

/-- The middle of a piece lies inside of it. -/
theorem middleOf_bounds (start : Nat) {source : List Char} (h : trim source ≠ []) :
    start ≤ (middleOf start source).start ∧
      (middleOf start source).start < (middleOf start source).stop ∧
      (middleOf start source).stop ≤ start + source.length := by
  have hlen := Text.length_eq source
  have hpos := List.length_pos_of_ne_nil h
  show start ≤ start + (leadingBlanks source).length ∧
    start + (leadingBlanks source).length <
      start + (leadingBlanks source).length + (trim source).length ∧
    start + (leadingBlanks source).length + (trim source).length ≤ start + source.length
  omega

/-- What comes before a piece does not count when its middle is taken out. -/
theorem take_middleOf {offset start : Nat} {before source : List Char} (rest : List Char)
    (h : offset + before.length = start) :
    (before ++ (source ++ rest)).take ((middleOf start source).start - offset) =
      before ++ leadingBlanks source := by
  have hsource : source ++ rest =
      leadingBlanks source ++ (trim source ++ trailingBlanks source ++ rest) := by
    have hs := Text.around_trim source
    rw [around, List.append_assoc] at hs
    rw [← List.append_assoc, hs]
  have hlen : (middleOf start source).start - offset =
      (before ++ leadingBlanks source).length := by
    show start + (leadingBlanks source).length - offset = _
    rw [List.length_append]
    omega
  rw [hsource, ← List.append_assoc, hlen, List.take_left]

/-- Behind the middle of a piece stand the blanks at its end. -/
theorem drop_middleOf {offset start : Nat} {before source : List Char} (rest : List Char)
    (h : offset + before.length = start) :
    (before ++ (source ++ rest)).drop ((middleOf start source).stop - offset) =
      trailingBlanks source ++ rest := by
  have hsource : before ++ (source ++ rest) =
      (before ++ leadingBlanks source ++ trim source) ++ (trailingBlanks source ++ rest) := by
    have hs := Text.around_trim source
    rw [around] at hs
    calc before ++ (source ++ rest)
        = before ++ ((leadingBlanks source ++ trim source ++ trailingBlanks source) ++ rest) := by
          rw [hs]
      _ = _ := by simp only [List.append_assoc]
  have hlen : (middleOf start source).stop - offset =
      (before ++ leadingBlanks source ++ trim source).length := by
    show start + (leadingBlanks source).length + (trim source).length - offset = _
    rw [List.length_append, List.length_append]
    omega
  rw [hsource, hlen, List.drop_left]

variable {new : Renewal} {start : Nat} {p : Piece} {ps : List Piece} {edits : List Edit}

/-- An edit of a later piece begins behind the first piece. -/
theorem lt_of_mem_placed {s : Nat} {q : Piece}
    (hq : (s, q) ∈ Piece.placed (start + p.chars.length) ps) :
    start + p.chars.length ≤ (middleOf s q.chars).start :=
  (Piece.le_of_mem_placed hq).trans (Nat.le_add_right _ _)

namespace Realizes

/-- If the first piece has no new text, the edits are those of the others. -/
theorem tail (h : Realizes new (Piece.placed start (p :: ps)) edits)
    (hkeep : new.at? start p.chars = none) :
    Realizes new (Piece.placed (start + p.chars.length) ps) edits where
  apart := h.apart
  place e he := by
    obtain ⟨s, q, v, hq, hv, hspan, hr⟩ := h.place e he
    rcases List.mem_cons.mp hq with heq | hq
    · obtain ⟨rfl, rfl⟩ := Prod.mk.inj heq
      rw [hkeep] at hv
      cases hv
    · exact ⟨s, q, v, hq, hv, hspan, hr⟩
  edit s q hq hv := h.edit s q (List.mem_cons_of_mem _ hq) hv

/-- If the first piece has a new text, the first edit puts it there, and the others are those of
the other pieces. -/
theorem exists_cons {v : List Char} (h : Realizes new (Piece.placed start (p :: ps)) edits)
    (hv : new.at? start p.chars = some v) :
    ∃ e rest, edits = e :: rest ∧ e.span = middleOf start p.chars ∧
      e.replacement = v.flatMap escapeChar ∧
      Realizes new (Piece.placed (start + p.chars.length) ps) rest := by
  have hbounds := middleOf_bounds start (trim_ne_nil_of_at? hv)
  -- an edit that begins inside of the first piece is the one of that piece
  have hfirst (e : Edit) (he : e ∈ edits) (hlt : e.span.start < start + p.chars.length) :
      e.span = middleOf start p.chars ∧ e.replacement = v.flatMap escapeChar := by
    obtain ⟨s, q, w, hq, hw, hspan, hr⟩ := h.place e he
    rcases List.mem_cons.mp hq with heq | hq
    · obtain ⟨rfl, rfl⟩ := Prod.mk.inj heq
      obtain rfl : w = v := Option.some.inj (hw.symm.trans hv)
      exact ⟨hspan, hr⟩
    · have := lt_of_mem_placed hq
      rw [hspan] at hlt
      omega
  obtain ⟨e, he, hspan⟩ := h.edit start p List.mem_cons_self (by rw [hv]; rfl)
  cases edits with
  | nil => cases he
  | cons f rest =>
    obtain ⟨hf, hrest⟩ := List.pairwise_cons.mp h.apart
    have hfspan : f.span = middleOf start p.chars ∧ f.replacement = v.flatMap escapeChar := by
      refine hfirst f List.mem_cons_self ?_
      rcases List.mem_cons.mp he with rfl | he
      · rw [hspan]
        omega
      · obtain ⟨s, q, w, -, hw, hfs, -⟩ := h.place f List.mem_cons_self
        have hb := middleOf_bounds s (trim_ne_nil_of_at? hw)
        have hle := hf e he
        rw [hspan] at hle
        rw [hfs] at hle ⊢
        omega
    refine ⟨f, rest, rfl, hfspan.1, hfspan.2, hrest, fun g hg => ?_, fun s q hq hw => ?_⟩
    · obtain ⟨s, q, w, hq, hw, hgs, hr⟩ := h.place g (List.mem_cons_of_mem _ hg)
      rcases List.mem_cons.mp hq with heq | hq
      · obtain ⟨rfl, rfl⟩ := Prod.mk.inj heq
        have hle := hf g hg
        rw [hfspan.1, hgs] at hle
        omega
      · exact ⟨s, q, w, hq, hw, hgs, hr⟩
    · obtain ⟨g, hg, hgs⟩ := h.edit s q (List.mem_cons_of_mem _ hq) hw
      rcases List.mem_cons.mp hg with rfl | hg
      · have := lt_of_mem_placed hq
        rw [hfspan.1] at hgs
        rw [← hgs] at this
        omega
      · exact ⟨g, hg, hgs⟩

end Realizes

/-- **Splicing edits into a text puts the new texts into its pieces.** -/
theorem splice_eq_rewriteAll {offset : Nat} {before : List Char}
    (h : Realizes new (Piece.placed start ps) edits) (hfit : new.Fits (Piece.placed start ps))
    (ho : offset + before.length = start) :
    splice offset edits (before ++ ps.flatMap Piece.chars) =
      before ++ (Piece.rewriteAll new start ps).flatMap Piece.chars := by
  induction ps generalizing start offset before edits with
  | nil =>
    cases edits with
    | nil => rfl
    | cons e rest =>
      obtain ⟨_, _, _, hp, -⟩ := h.place e List.mem_cons_self
      cases hp
  | cons p ps ih =>
    have hfit' : new.Fits (Piece.placed (start + p.chars.length) ps) :=
      fun s q v hq hv => hfit s q v (List.mem_cons_of_mem _ hq) hv
    rw [Piece.rewriteAll, List.flatMap_cons, List.flatMap_cons]
    cases hv : new.at? start p.chars with
    | none =>
      have hkeep : p.rewrite new start = p := by
        cases p with
        | text raw =>
          have hv' : new.at? start raw = none := hv
          rw [Piece.rewrite, hv']
        | _ => rfl
      have hlen : offset + (before ++ p.chars).length = start + p.chars.length := by
        rw [List.length_append]
        omega
      rw [hkeep, ← List.append_assoc, ← List.append_assoc]
      exact ih (h.tail hv) hfit' hlen
    | some v =>
      obtain ⟨raw, rfl, -⟩ := hfit start p v List.mem_cons_self hv
      obtain ⟨e, rest, rfl, hspan, hr, hrest⟩ := h.exists_cons hv
      have hlen : e.span.stop + (trailingBlanks raw).length = start + raw.length := by
        have := Text.length_eq raw
        rw [hspan]
        show start + (leadingBlanks raw).length + (trim raw).length + _ = _
        omega
      have hpiece : (Piece.text raw).rewrite new start =
          .text (around raw (v.flatMap escapeChar)) := by
        have hv' : new.at? start raw = some v := hv
        rw [Piece.rewrite, hv']
      have hsplice : splice e.span.stop rest (trailingBlanks raw ++ ps.flatMap Piece.chars) =
          trailingBlanks raw ++
            (Piece.rewriteAll new (start + raw.length) ps).flatMap Piece.chars :=
        ih hrest hfit' hlen
      rw [splice, hspan, take_middleOf _ ho, drop_middleOf _ ho, ← hspan, hr, hpiece]
      show before ++ leadingBlanks raw ++ _ ++ splice _ rest (trailingBlanks raw ++ _) =
        before ++ (leadingBlanks raw ++ _ ++ trailingBlanks raw ++
          (Piece.rewriteAll new (start + raw.length) ps).flatMap Piece.chars)
      rw [hsplice]
      simp only [List.append_assoc]

/-! ## Edits that do not overlap -/

/-- Edits of which no two consecutive ones overlap follow each other. -/
theorem pairwise_of_firstOverlap? {es : List Edit} (h : firstOverlap? es = none)
    (hspan : ∀ e ∈ es, e.span.start ≤ e.span.stop) :
    es.Pairwise fun e f => e.span.stop ≤ f.span.start := by
  induction es with
  | nil => exact .nil
  | cons e rest ih =>
    cases rest with
    | nil => exact List.pairwise_singleton _ _
    | cons f rest =>
      rw [firstOverlap?] at h
      split at h
      · cases h
      · next hno =>
        have hef : e.span.stop ≤ f.span.start := by
          rw [overlaps, Bool.or_eq_true, decide_eq_true_eq] at hno
          exact Nat.le_of_not_lt fun hlt => hno (Or.inl hlt)
        have hrest := ih h fun g hg => hspan g (List.mem_cons_of_mem _ hg)
        refine List.pairwise_cons.mpr ⟨fun g hg => ?_, hrest⟩
        rcases List.mem_cons.mp hg with rfl | hg
        · exact hef
        · have hf := hspan f (List.mem_cons_of_mem _ List.mem_cons_self)
          have hfg := (List.pairwise_cons.mp hrest).1 g hg
          omega

end MavenUpgrade.Edit

import Mathlib
import MavenUpgrade.Proofs.Pom.Applying

/-!
# The text of an edited document

A patch can be applied exactly when each of its changes names a declaration with a text that can be
edited and no two of these texts overlap. What comes out is the document with these texts replaced
and everything else copied (`Pom.Edited`); the order of the changes does not matter.
-/

namespace MavenUpgrade

open Edit (middleOf)
open Text (trim)
open Xml (Layout Node Piece)

/-- Two spans share no character. -/
def Span.Apart (a b : Span) : Prop :=
  a.stop ≤ b.start ∨ b.stop ≤ a.start

instance (a b : Span) : Decidable (a.Apart b) :=
  inferInstanceAs (Decidable (_ ∨ _))

theorem Span.Apart.symm {a b : Span} (h : a.Apart b) : b.Apart a :=
  Or.symm h

/-! ## The order of edits -/

namespace Edit

theorem comesBefore_iff {e f : Edit} : e.comesBefore f = true ↔
    e.span.start < f.span.start ∨
      e.span.start = f.span.start ∧ e.span.stop ≤ f.span.stop := by
  simp [comesBefore]

/-- Edits of texts that are apart follow each other once they are sorted. -/
theorem pairwise_mergeSort {es : List Edit} (h : es.Pairwise fun e f => e.span.Apart f.span)
    (hspan : ∀ e ∈ es, e.span.start < e.span.stop) :
    (es.mergeSort comesBefore).Pairwise fun e f => e.span.stop ≤ f.span.start := by
  have hsorted : (es.mergeSort comesBefore).Pairwise fun e f => e.comesBefore f = true := by
    refine List.pairwise_mergeSort (fun e f g hef hfg => ?_) (fun e f => ?_) es
    · rw [comesBefore_iff] at hef hfg ⊢
      omega
    · rw [Bool.or_eq_true, comesBefore_iff, comesBefore_iff]
      omega
  have hapart : (es.mergeSort comesBefore).Pairwise fun e f => e.span.Apart f.span :=
    ((List.mergeSort_perm es comesBefore).pairwise_iff fun he => he.symm).mpr h
  refine (hsorted.and hapart).imp_of_mem fun {e f} he hf hboth => ?_
  obtain ⟨hef, hor⟩ := hboth
  rw [comesBefore_iff] at hef
  rcases hor with hor | hor
  · exact hor
  · -- the later one cannot end before the earlier one begins
    have := hspan f (List.mem_mergeSort.mp hf)
    omega

/-- Edits that follow each other do not overlap. -/
theorem firstOverlap?_of_pairwise {es : List Edit}
    (h : es.Pairwise fun e f => e.span.stop ≤ f.span.start)
    (hspan : ∀ e ∈ es, e.span.start < e.span.stop) : firstOverlap? es = none := by
  induction es with
  | nil => rfl
  | cons e rest ih =>
    cases rest with
    | nil => rfl
    | cons f rest =>
      obtain ⟨he, hrest⟩ := List.pairwise_cons.mp h
      have hno : ¬ e.overlaps f = true := by
        have hef := he f List.mem_cons_self
        have := hspan e List.mem_cons_self
        rw [overlaps, Bool.or_eq_true, decide_eq_true_eq, beq_iff_eq]
        omega
      rw [firstOverlap?, if_neg hno]
      exact ih hrest fun g hg => hspan g (List.mem_cons_of_mem _ hg)

/-- Edits do not overlap once they are sorted exactly when their texts are apart. -/
theorem firstOverlap?_mergeSort_iff {es : List Edit}
    (hspan : ∀ e ∈ es, e.span.start < e.span.stop) :
    firstOverlap? (es.mergeSort comesBefore) = none ↔
      es.Pairwise fun e f => e.span.Apart f.span := by
  have hspan' : ∀ e ∈ es.mergeSort comesBefore, e.span.start < e.span.stop :=
    fun e he => hspan e (List.mem_mergeSort.mp he)
  constructor
  · intro h
    have hafter := pairwise_of_firstOverlap? h fun e he => (hspan' e he).le
    have hapart := hafter.imp fun {e f : Edit} hef => (Or.inl hef : e.span.Apart f.span)
    exact ((List.mergeSort_perm es comesBefore).pairwise_iff fun he => he.symm).mp hapart
  · intro h
    exact firstOverlap?_of_pairwise (pairwise_mergeSort h hspan) hspan'

/-- The order in which edits of texts that are apart are given does not matter. -/
theorem mergeSort_eq_of_perm {es es' : List Edit} (hp : es'.Perm es)
    (h : es.Pairwise fun e f => e.span.Apart f.span)
    (hspan : ∀ e ∈ es, e.span.start < e.span.stop) :
    es'.mergeSort comesBefore = es.mergeSort comesBefore := by
  have hspan' : ∀ e ∈ es', e.span.start < e.span.stop := fun e he => hspan e (hp.subset he)
  have h' := (hp.pairwise_iff fun {e f : Edit} (he : e.span.Apart f.span) => he.symm).mpr h
  have hsame : (es'.mergeSort comesBefore).Perm (es.mergeSort comesBefore) :=
    (List.mergeSort_perm es' _).trans (hp.trans (List.mergeSort_perm es _).symm)
  refine hsame.eq_of_pairwise (fun e f he hf hef hfe => ?_) (pairwise_mergeSort h' hspan')
    (pairwise_mergeSort h hspan)
  have h₁ := hspan' e (List.mem_mergeSort.mp he)
  have h₂ := hspan f (List.mem_mergeSort.mp hf)
  omega

end Edit

/-! ## The texts that can be edited -/

namespace Pom

variable {text : String} {pom : Pom}

/-- A piece stands in its document. -/
theorem exists_append_of_mem_placed {start s : Nat} {ps : List Piece} {p : Piece}
    (h : (s, p) ∈ Piece.placed start ps) : ∃ before after,
      ps.flatMap Piece.chars = before ++ (p.chars ++ after) ∧ start + before.length = s := by
  induction ps generalizing start with
  | nil => cases h
  | cons q ps ih =>
    rw [List.flatMap_cons]
    rcases List.mem_cons.mp h with he | h
    · obtain ⟨rfl, rfl⟩ := Prod.mk.inj he
      exact ⟨[], ps.flatMap Piece.chars, rfl, rfl⟩
    · obtain ⟨before, after, he, hs⟩ := ih h
      refine ⟨q.chars ++ before, after, ?_, ?_⟩
      · rw [he, List.append_assoc]
      · rw [List.length_append]
        omega

/-- **A text that can be edited is a piece of the document, between the blanks of this piece**, and
holds a mark of XML exactly when the piece does not say itself: then what is read is what it says
and what the pieces behind it say. -/
theorem exists_piece_of_spanOf? (hread : read text = .ok pom) {target : PatchTarget}
    {span : Span} (h : pom.spanOf? target = some (some span)) :
    ∃ head pieces s piece, text.toList = head ++ pieces.flatMap Piece.chars ∧
      (s, piece) ∈ Piece.placed head.length pieces ∧ trim piece.chars ≠ [] ∧
        span = middleOf s piece.chars ∧
          pom.textOf? target = some (String.ofList (trim piece.chars)) ∧
            (piece.Says piece.chars ↔ '&' ∉ trim piece.chars ∧ '<' ∉ trim piece.chars) := by
  obtain ⟨project, root, hd, -, -, rfl⟩ := exists_of_read hread
  obtain ⟨head, pieces, hl⟩ := Xml.exists_layout hd
  obtain ⟨s, source, hi, hne, rfl, htext⟩ := exists_text_of_spanOf? h
  obtain ⟨piece, hplace, rfl, hmarks⟩ := hl.exists_piece hi
  refine ⟨head, pieces, s, piece, hl.text, hplace, hne, rfl, htext, ?_⟩
  rw [hmarks, Text.mem_trim_iff (by decide), Text.mem_trim_iff (by decide)]

/-- **A text that can be edited is what the document says at its span.** -/
theorem exists_append_of_spanOf? (hread : read text = .ok pom) {target : PatchTarget}
    {span : Span} (h : pom.spanOf? target = some (some span)) :
    ∃ before old after, text.toList = before ++ (old ++ after) ∧ old ≠ [] ∧
      span = ⟨before.length, before.length + old.length⟩ ∧
        pom.textOf? target = some (String.ofList old) := by
  obtain ⟨head, pieces, s, piece, hlaid, hplace, hne, rfl, htext, -⟩ :=
    exists_piece_of_spanOf? hread h
  obtain ⟨before, after, hpieces, hs⟩ := exists_append_of_mem_placed hplace
  refine ⟨head ++ before ++ Text.leadingBlanks piece.chars, trim piece.chars,
    Text.trailingBlanks piece.chars ++ after, ?_, hne, ?_, htext⟩
  · have hsource := Text.around_trim piece.chars
    rw [Text.around] at hsource
    calc text.toList = head ++ (before ++ (piece.chars ++ after)) := by rw [hlaid, hpieces]
      _ = head ++ (before ++ ((Text.leadingBlanks piece.chars ++ trim piece.chars ++
            Text.trailingBlanks piece.chars) ++ after)) := by rw [hsource]
      _ = _ := by simp only [List.append_assoc]
  · rw [middleOf, List.length_append, List.length_append, hs]

theorem start_lt_stop_of_spanOf? (hread : read text = .ok pom) {target : PatchTarget}
    {span : Span} (h : pom.spanOf? target = some (some span)) : span.start < span.stop := by
  obtain ⟨before, old, after, -, hne, rfl, -⟩ := exists_append_of_spanOf? hread h
  have := List.length_pos_of_ne_nil hne
  show before.length < before.length + old.length
  omega

/-- Targets whose texts begin at one place are the same. -/
theorem target_unique (hread : read text = .ok pom) {target target' : PatchTarget}
    {a b : Span} (h : pom.spanOf? target = some (some a))
    (h' : pom.spanOf? target' = some (some b)) (heq : a.start = b.start) : target = target' := by
  obtain ⟨project, root, hd, -, -, rfl⟩ := exists_of_read hread
  obtain ⟨head, pieces, hl⟩ := Xml.exists_layout hd
  cases target with
  | dependency package origin =>
    obtain ⟨d, hd, rfl, rfl, hs⟩ := exists_dependency_of_spanOf? h
    have hmem := mem_declaring_dependencies.mp hd
    cases target' with
    | dependency package' origin' =>
      obtain ⟨d', hd', rfl, rfl, hs'⟩ := exists_dependency_of_spanOf? h'
      obtain ⟨hp, ho⟩ :=
        dependency_unique hl hmem (mem_declaring_dependencies.mp hd') hs hs' heq
      rw [hp, ho]
    | property scope name =>
      obtain ⟨p, hp, -, -, hs'⟩ := exists_property_of_spanOf? h'
      exact absurd heq (dependency_ne_property hl hmem hp hs hs')
  | property scope name =>
    obtain ⟨p, hp, rfl, rfl, hs⟩ := exists_property_of_spanOf? h
    cases target' with
    | dependency package origin =>
      obtain ⟨d, hd, -, -, hs'⟩ := exists_dependency_of_spanOf? h'
      have hmem := mem_declaring_dependencies.mp hd
      exact absurd heq.symm (dependency_ne_property hl hmem hp hs' hs)
    | property scope' name' =>
      obtain ⟨p', hp', rfl, rfl, hs'⟩ := exists_property_of_spanOf? h'
      obtain ⟨hscope, hname⟩ := property_unique hl hp hp' hs hs' heq
      rw [hscope, hname]

/-- **The texts of different targets are apart.** -/
theorem apart_of_ne (hread : read text = .ok pom) {target target' : PatchTarget} {a b : Span}
    (hne : target ≠ target') (h : pom.spanOf? target = some (some a))
    (h' : pom.spanOf? target' = some (some b)) : a.Apart b := by
  by_contra hover
  rw [Span.Apart, not_or] at hover
  have hunique := fun heq => hne (target_unique hread h h' heq)
  obtain ⟨project, root, hd, -, -, rfl⟩ := exists_of_read hread
  obtain ⟨head, pieces, hl⟩ := Xml.exists_layout hd
  obtain ⟨stop, hsound⟩ := hl.sound
  obtain ⟨s, source, hi, hsource, rfl, -⟩ := exists_text_of_spanOf? h
  obtain ⟨s', source', hi', hsource', rfl, -⟩ := exists_text_of_spanOf? h'
  obtain ⟨piece, -, -, hplace, rfl, -⟩ := hsound.text s source source hi
  obtain ⟨piece', -, -, hplace', rfl, -⟩ := hsound.text s' source' source' hi'
  have hb := Edit.middleOf_bounds s hsource
  have hb' := Edit.middleOf_bounds s' hsource'
  -- texts that overlap share the character at which the later one begins
  obtain ⟨x, hx, hx'⟩ : ∃ x, (s ≤ x ∧ x < s + piece.chars.length) ∧
      (s' ≤ x ∧ x < s' + piece'.chars.length) :=
    ⟨max (middleOf s piece.chars).start (middleOf s' piece'.chars).start, by omega, by omega⟩
  obtain ⟨rfl, rfl⟩ := Piece.placed_unique hplace hplace' hx hx'
  exact hunique rfl

/-- The text of the first declaration of a target can be edited. -/
def CanEdit (pom : Pom) (target : PatchTarget) : Prop :=
  ∃ span, pom.spanOf? target = some (some span)

/-- The texts of the targets of changes can be edited; these are their spans, one for each
change. -/
def Spans (pom : Pom) (changes : List (PatchTarget × String)) (spans : List Span) : Prop :=
  List.Forall₂ (fun change span => pom.spanOf? change.1 = some (some span)) changes spans

/-- Changes have edits where the texts of their targets can be edited. -/
theorem exists_edits_of_spans {changes : List (PatchTarget × String)} {spans : List Span}
    (h : pom.Spans changes spans) :
    ∃ edits, List.Forall₂ (fun c e => pom.editOf c.1 c.2 = .ok e) changes edits ∧
      edits.map Edit.span = spans := by
  induction h with
  | nil => exact ⟨[], .nil, rfl⟩
  | @cons change span changes spans hs _ ih =>
    obtain ⟨edits, hedits, rfl⟩ := ih
    exact ⟨⟨span, escapeText change.2, change.1⟩ :: edits,
      .cons (editOf_eq_ok_iff.mpr ⟨span, hs, rfl⟩) hedits, rfl⟩

/-- The texts that edits replace can be edited. -/
theorem spans_of_edits {changes : List (PatchTarget × String)} {edits : List Edit}
    (h : List.Forall₂ (fun c e => pom.editOf c.1 c.2 = .ok e) changes edits) :
    pom.Spans changes (edits.map Edit.span) := by
  rw [Spans, List.forall₂_map_right_iff]
  refine h.imp fun change e he => ?_
  obtain ⟨span, hs, rfl⟩ := editOf_eq_ok_iff.mp he
  exact hs

/-- Targets whose texts can be edited have spans. -/
theorem exists_spans_of_canEdit {changes : List (PatchTarget × String)}
    (h : ∀ change ∈ changes, pom.CanEdit change.1) : ∃ spans, pom.Spans changes spans := by
  induction changes with
  | nil => exact ⟨[], .nil⟩
  | cons change changes ih =>
    obtain ⟨a, ha⟩ := h change List.mem_cons_self
    obtain ⟨spans, hspans⟩ := ih fun c hc => h c (List.mem_cons_of_mem _ hc)
    exact ⟨a :: spans, .cons ha hspans⟩

/-- Different targets have spans that are apart. -/
theorem pairwise_apart_of_spans (hread : read text = .ok pom)
    {changes : List (PatchTarget × String)} {spans : List Span} (h : pom.Spans changes spans)
    (hnd : (changes.map Prod.fst).Nodup) : spans.Pairwise Span.Apart := by
  induction h with
  | nil => exact .nil
  | @cons change a changes spans ha hspans ih =>
    rw [List.map_cons, List.nodup_cons] at hnd
    refine List.pairwise_cons.mpr ⟨fun b hb => ?_, ih hnd.2⟩
    obtain ⟨other, hother, hs⟩ := exists_mem_of_forall₂ hspans.flip hb
    refine apart_of_ne hread (fun he => hnd.1 ?_) ha hs
    rw [he]
    exact List.mem_map_of_mem hother

/-- Targets with spans that are apart are different. -/
theorem nodup_of_spans (hread : read text = .ok pom) {changes : List (PatchTarget × String)}
    {spans : List Span} (h : pom.Spans changes spans) (hapart : spans.Pairwise Span.Apart) :
    (changes.map Prod.fst).Nodup := by
  induction h with
  | nil => exact List.nodup_nil
  | @cons change a changes spans ha hspans ih =>
    obtain ⟨hfirst, hrest⟩ := List.pairwise_cons.mp hapart
    rw [List.map_cons, List.nodup_cons]
    refine ⟨fun hmem => ?_, ih hrest⟩
    obtain ⟨other, ho, he⟩ := List.mem_map.mp hmem
    obtain ⟨b, hb, hs⟩ := exists_mem_of_forall₂ hspans ho
    rw [he, ha] at hs
    obtain rfl := Option.some.inj (Option.some.inj hs)
    have := start_lt_stop_of_spanOf? hread ha
    rcases hfirst a hb with hor | hor <;> omega

/-- Each edit replaces something. -/
theorem start_lt_stop_of_edits (hread : read text = .ok pom)
    {changes : List (PatchTarget × String)} {edits : List Edit}
    (h : List.Forall₂ (fun c e => pom.editOf c.1 c.2 = .ok e) changes edits) :
    ∀ e ∈ edits, e.span.start < e.span.stop := by
  intro e he
  obtain ⟨change, -, hc⟩ := exists_mem_of_forall₂ h.flip he
  obtain ⟨span, hs, rfl⟩ := editOf_eq_ok_iff.mp hc
  exact start_lt_stop_of_spanOf? hread hs

/-- **A patch is applied exactly when its edits are apart.** -/
theorem applyPatch_eq_ok_iff {patch : Patch} {out : String} (hread : read text = .ok pom)
    (hne : ¬ patch.isEmpty = true) :
    applyPatch text patch = .ok out ↔
      ∃ edits, List.Forall₂ (fun c e => pom.editOf c.1 c.2 = .ok e) patch.changes edits ∧
        edits.Pairwise (fun e f => e.span.Apart f.span) ∧
          out = String.ofList (Edit.splice 0 (edits.mergeSort Edit.comesBefore) text.toList) := by
  rw [applyPatch_eq_ok_iff_edits hread hne]
  refine exists_congr fun edits => and_congr_right fun hedits => and_congr_left fun _ => ?_
  exact Edit.firstOverlap?_mergeSort_iff (start_lt_stop_of_edits hread hedits)

/-- A patch with changes is applied exactly when the texts of its targets can be edited and are
apart. -/
theorem exists_applyPatch_iff {patch : Patch} (hread : read text = .ok pom)
    (hne : ¬ patch.isEmpty = true) :
    (∃ out, applyPatch text patch = .ok out) ↔
      ∃ spans, pom.Spans patch.changes spans ∧ spans.Pairwise Span.Apart := by
  constructor
  · rintro ⟨out, h⟩
    obtain ⟨edits, hedits, hapart, -⟩ := (applyPatch_eq_ok_iff hread hne).mp h
    exact ⟨edits.map Edit.span, spans_of_edits hedits, List.pairwise_map.mpr hapart⟩
  · rintro ⟨spans, hspans, hapart⟩
    obtain ⟨edits, hedits, rfl⟩ := exists_edits_of_spans hspans
    exact ⟨_, (applyPatch_eq_ok_iff hread hne).mpr
      ⟨edits, hedits, List.pairwise_map.mp hapart, rfl⟩⟩

/-- A patch that is applied changes no target twice. -/
theorem nodup_targets_of_applyPatch {patch : Patch} {out : String} (hread : read text = .ok pom)
    (h : applyPatch text patch = .ok out) : (patch.changes.map Prod.fst).Nodup := by
  by_cases hempty : patch.isEmpty = true
  · rw [changes_of_isEmpty hempty]
    exact List.nodup_nil
  · obtain ⟨spans, hspans, hapart⟩ := (exists_applyPatch_iff hread hempty).mp ⟨out, h⟩
    exact nodup_of_spans hread hspans hapart

/-- A patch that changes no target twice is applied exactly when the texts of its targets can be
edited. -/
theorem exists_applyPatch_iff_canEdit {patch : Patch} (hread : read text = .ok pom)
    (hnd : (patch.changes.map Prod.fst).Nodup) :
    (∃ out, applyPatch text patch = .ok out) ↔
      ∀ change ∈ patch.changes, pom.CanEdit change.1 := by
  by_cases hempty : patch.isEmpty = true
  · -- an empty patch gives the text itself, and has no changes
    have happly : applyPatch text patch = .ok text := by
      unfold applyPatch
      rw [if_pos hempty]
      rfl
    rw [changes_of_isEmpty hempty]
    exact iff_of_true ⟨text, happly⟩ fun change hc => absurd hc List.not_mem_nil
  · rw [exists_applyPatch_iff hread hempty]
    constructor
    · rintro ⟨spans, hspans, -⟩ change hc
      obtain ⟨span, -, hs⟩ := exists_mem_of_forall₂ hspans hc
      exact ⟨span, hs⟩
    · intro h
      obtain ⟨spans, hspans⟩ := exists_spans_of_canEdit h
      exact ⟨spans, hspans, pairwise_apart_of_spans hread hspans hnd⟩

/-- A target that has no edit is not plain, or not declared. -/
theorem eq_of_editOf_eq_error {target : PatchTarget} {new : String} {error : PatchError}
    (h : pom.editOf target new = .error error) :
    pom.spanOf? target = some none ∧ error = .notPlain target ∨
      pom.spanOf? target = none ∧ error = .notDeclared target := by
  rw [editOf] at h
  split at h
  · cases h
  · next hs => exact Or.inl ⟨hs, (Except.error.inj h).symm⟩
  · next hs => exact Or.inr ⟨hs, (Except.error.inj h).symm⟩

/-- A patch is refused because of the first change that has no edit, or because the texts of two
of its targets overlap. -/
theorem exists_of_applyPatch_eq_error {patch : Patch} {error : PatchError}
    (hread : read text = .ok pom) (h : applyPatch text patch = .error error) :
    (∃ before change after, patch.changes = before ++ change :: after ∧
        (∀ c ∈ before, pom.CanEdit c.1) ∧ pom.editOf change.1 change.2 = .error error) ∨
      ∃ spans, pom.Spans patch.changes spans ∧ ¬ spans.Pairwise Span.Apart := by
  have hne : ¬ patch.isEmpty = true := by
    intro hempty
    unfold applyPatch at h
    rw [if_pos hempty] at h
    cases h
  rw [applyPatch_eq hread hne] at h
  cases hm : patch.changes.mapM fun c => pom.editOf c.1 c.2 with
  | error e =>
    rw [hm] at h
    have h' : (Except.error e : Except PatchError String) = .error error := h
    obtain rfl := Except.error.inj h'
    obtain ⟨before, change, after, hchanges, hbefore, hfail⟩ := exists_of_mapM_eq_error hm
    refine Or.inl ⟨before, change, after, hchanges, fun c hc => ?_, hfail⟩
    obtain ⟨e, he⟩ := hbefore c hc
    obtain ⟨span, hs, -⟩ := editOf_eq_ok_iff.mp he
    exact ⟨span, hs⟩
  | ok edits =>
    rw [hm] at h
    have h' : spliced text edits = .error error := h
    have hedits := mapM_eq_ok_iff.mp hm
    refine Or.inr ⟨edits.map Edit.span, spans_of_edits hedits, fun hapart => ?_⟩
    rw [spliced, (Edit.firstOverlap?_mergeSort_iff (start_lt_stop_of_edits hread hedits)).mpr
      (List.pairwise_map.mp hapart)] at h'
    cases h'

/-! ## What is written -/

/-- A part of a text, which begins at the given offset, is edited by changes, of which the first
comes first in the text: the text of each target, which is what the document declares, is replaced
by the escaped new one, and what stands before and behind these texts is copied. -/
inductive Edited (pom : Pom) :
    Nat → List (PatchTarget × String) → List Char → List Char → Prop where
  | rest (offset : Nat) (cs : List Char) : Edited pom offset [] cs cs
  | change {offset : Nat} {target : PatchTarget} {new : String}
      {changes : List (PatchTarget × String)} {cs out : List Char} (before old : List Char)
      (hspan : pom.spanOf? target = some (some
        ⟨offset + before.length, offset + before.length + old.length⟩))
      (hold : pom.textOf? target = some (String.ofList old))
      (h : Edited pom (offset + before.length + old.length) changes cs out) :
      Edited pom offset ((target, new) :: changes) (before ++ (old ++ cs))
        (before ++ (escapeText new ++ out))

/-- Splicing edits that follow each other edits the text. -/
theorem edited_splice (hread : read text = .ok pom) {changes : List (PatchTarget × String)}
    {edits : List Edit} {offset : Nat}
    (h : List.Forall₂ (fun c e => pom.editOf c.1 c.2 = .ok e) changes edits)
    (hafter : edits.Pairwise fun e f => e.span.stop ≤ f.span.start)
    (hoffset : ∀ e ∈ edits, offset ≤ e.span.start) :
    pom.Edited offset changes (text.toList.drop offset)
      (Edit.splice offset edits (text.toList.drop offset)) := by
  induction h generalizing offset with
  | nil => exact .rest offset _
  | @cons change e changes edits he _ ih =>
    obtain ⟨target, new⟩ := change
    obtain ⟨span, hs, rfl⟩ := editOf_eq_ok_iff.mp he
    obtain ⟨hnext, hrest⟩ := List.pairwise_cons.mp hafter
    obtain ⟨before, old, after, htext, -, rfl, hold⟩ := exists_append_of_spanOf? hread hs
    have hle : offset ≤ before.length := hoffset _ List.mem_cons_self
    have hdrop : text.toList.drop offset = before.drop offset ++ (old ++ after) := by
      rw [htext, List.drop_append_of_le_length hle]
    have hbehind : text.toList.drop (before.length + old.length) = after := by
      rw [htext, ← List.append_assoc, ← List.length_append, List.drop_left]
    have hlen : offset + (before.drop offset).length = before.length := by
      rw [List.length_drop]
      omega
    have hwritten : pom.Edited (before.length + old.length) changes
        (text.toList.drop (before.length + old.length))
        (Edit.splice (before.length + old.length) edits
          (text.toList.drop (before.length + old.length))) := ih hrest hnext
    rw [hbehind] at hwritten
    have htake : (before.drop offset ++ (old ++ after)).take (before.length - offset) =
        before.drop offset := by
      rw [← List.length_drop, List.take_left]
    have hskip : (before.drop offset ++ (old ++ after)).drop
        (before.length + old.length - offset) = after := by
      have hn : before.length + old.length - offset = (before.drop offset ++ old).length := by
        rw [List.length_append, List.length_drop]
        omega
      rw [← List.append_assoc, hn, List.drop_left]
    rw [hdrop, Edit.splice, htake, hskip, List.append_assoc]
    refine .change (before.drop offset) old ?_ hold ?_
    · rw [hlen]
      exact hs
    · rw [hlen]
      exact hwritten

/-- **A patch that is applied edits the text with its changes in the order of the text.** -/
theorem exists_edited {patch : Patch} {out : String} (hread : read text = .ok pom)
    (hne : ¬ patch.isEmpty = true) (h : applyPatch text patch = .ok out) :
    ∃ ordered, ordered.Perm patch.changes ∧ pom.Edited 0 ordered text.toList out.toList := by
  obtain ⟨edits, hedits, hapart, rfl⟩ := (applyPatch_eq_ok_iff hread hne).mp h
  have hsorted := Edit.pairwise_mergeSort hapart (start_lt_stop_of_edits hread hedits)
  obtain ⟨ordered, hordered, hperm⟩ : Relation.Comp
      (List.Forall₂ fun e c => pom.editOf c.1 c.2 = .ok e) List.Perm
        (edits.mergeSort Edit.comesBefore) patch.changes :=
    List.perm_comp_forall₂ (List.mergeSort_perm edits _) hedits.flip
  refine ⟨ordered, hperm, ?_⟩
  have hwritten := edited_splice hread hordered.flip hsorted fun e _ => Nat.zero_le _
  rw [List.drop_zero] at hwritten
  rw [String.toList_ofList]
  exact hwritten

/-- **Patches with the same changes in another order give the same text.** -/
theorem applyPatch_of_perm {patch patch' : Patch} {out : String} (hread : read text = .ok pom)
    (hp : patch'.changes.Perm patch.changes) (hne : ¬ patch.isEmpty = true)
    (hne' : ¬ patch'.isEmpty = true) (h : applyPatch text patch = .ok out) :
    applyPatch text patch' = .ok out := by
  obtain ⟨edits, hedits, hapart, rfl⟩ := (applyPatch_eq_ok_iff hread hne).mp h
  obtain ⟨edits', hedits', hperm⟩ : Relation.Comp
      (List.Forall₂ fun c e => pom.editOf c.1 c.2 = .ok e) List.Perm patch'.changes edits :=
    List.perm_comp_forall₂ hp hedits
  refine (applyPatch_eq_ok_iff hread hne').mpr ⟨edits', hedits', ?_, ?_⟩
  · exact (hperm.pairwise_iff fun {e f : Edit} (he : e.span.Apart f.span) => he.symm).mpr hapart
  · rw [Edit.mergeSort_eq_of_perm hperm hapart (start_lt_stop_of_edits hread hedits)]

end Pom

/-! ## Patches with changes -/

/-- The changes of a patch do not depend on the order of its overrides, up to their own order. -/
theorem Patch.changes_perm {patch patch' : Patch}
    (hd : patch'.dependencies.Perm patch.dependencies)
    (hp : patch'.properties = patch.properties) : patch'.changes.Perm patch.changes := by
  rw [changes, changes, propertyChanges, propertyChanges, hp]
  exact (hd.map _).append_right _

theorem Patch.isEmpty_eq_of_perm {patch patch' : Patch}
    (hd : patch'.dependencies.Perm patch.dependencies)
    (hp : patch'.properties = patch.properties) : patch'.isEmpty = patch.isEmpty := by
  rw [isEmpty, isEmpty, size, size, propertyCount, propertyCount, hp, hd.length_eq]

/-- **A patch with changes is applied exactly when the texts of its targets can be edited and are
apart. These texts are replaced and everything else is copied, and the order of the overrides does
not matter.** -/
theorem applyPatch_edits_spans {text : String} {pom : Pom} (patch : Patch)
    (hread : Pom.read text = .ok pom) (hne : ¬ patch.isEmpty = true) :
    ((∃ out, applyPatch text patch = .ok out) ↔
        ∃ spans, pom.Spans patch.changes spans ∧ spans.Pairwise Span.Apart) ∧
      (∀ out, applyPatch text patch = .ok out → ∃ ordered, ordered.Perm patch.changes ∧
        pom.Edited 0 ordered text.toList out.toList) ∧
      ∀ patch', patch'.dependencies.Perm patch.dependencies →
        patch'.properties = patch.properties →
          (applyPatch text patch').toOption = (applyPatch text patch).toOption := by
  refine ⟨Pom.exists_applyPatch_iff hread hne, fun out h => Pom.exists_edited hread hne h,
    fun patch' hd hp => ?_⟩
  have hperm := Patch.changes_perm hd hp
  have hne' : ¬ patch'.isEmpty = true := by rwa [Patch.isEmpty_eq_of_perm hd hp]
  have hsame {out : String} :
      applyPatch text patch' = .ok out ↔ applyPatch text patch = .ok out :=
    ⟨Pom.applyPatch_of_perm hread hperm.symm hne' hne,
      Pom.applyPatch_of_perm hread hperm hne hne'⟩
  refine Option.ext fun out => ?_
  rw [toOption_eq_some_iff, toOption_eq_some_iff, hsame]

/-- A new version for a dependency of the project. -/
def newVersion (artifact version : String) : DependencyPatch :=
  ⟨.ofCoordinates "g" artifact, .direct, version⟩

/-- New versions for two dependencies. -/
def newVersions (first second : DependencyPatch) : Patch :=
  (Patch.empty.override first).override second

/-- The later one of two dependencies may be overridden first. -/
theorem applyPatch_edits_later_first :
    ∃ pom out ordered, Pom.read (String.join (twoDependencies "1" "1.0")) = .ok pom ∧
      applyPatch (String.join (twoDependencies "1" "1.0"))
        (newVersions (newVersion "c" "2.0") (newVersion "b" "1.5")) = .ok out ∧
      ordered.Perm (newVersions (newVersion "c" "2.0") (newVersion "b" "1.5")).changes ∧
      pom.Edited 0 ordered (String.join (twoDependencies "1" "1.0")).toList out.toList ∧
      applyPatch (String.join (twoDependencies "1" "1.0"))
        (newVersions (newVersion "b" "1.5") (newVersion "c" "2.0")) = .ok out := by
  obtain ⟨pom, hread, h⟩ := Pom.exists_of_any (twoDependencies "1" "1.0") (fun pom =>
    (pom.spanOf? (.dependency (.ofCoordinates "g" "c") .direct)).join.any fun a =>
      (pom.spanOf? (.dependency (.ofCoordinates "g" "b") .direct)).join.any fun b => a.Apart b)
    (by decide +kernel)
  obtain ⟨a, ha, h⟩ := (Option.any_eq_true _ _).mp h
  obtain ⟨b, hb, h⟩ := (Option.any_eq_true _ _).mp h
  have hspans : pom.Spans
      (newVersions (newVersion "c" "2.0") (newVersion "b" "1.5")).changes [a, b] :=
    .cons (Option.join_eq_some_iff.mp ha) (.cons (Option.join_eq_some_iff.mp hb) .nil)
  have hapart : [a, b].Pairwise Span.Apart := List.pairwise_pair.mpr (of_decide_eq_true h)
  obtain ⟨hiff, hedited, horder⟩ := applyPatch_edits_spans
    (newVersions (newVersion "c" "2.0") (newVersion "b" "1.5")) hread (by decide)
  obtain ⟨out, happly⟩ := hiff.mpr ⟨[a, b], hspans, hapart⟩
  obtain ⟨ordered, hperm, hwritten⟩ := hedited out happly
  have hswap := horder (newVersions (newVersion "b" "1.5") (newVersion "c" "2.0"))
    (List.Perm.swap _ _ _) rfl
  rw [happly] at hswap
  exact ⟨pom, out, ordered, hread, happly, hperm, hwritten, toOption_eq_some_iff.mp hswap⟩

end MavenUpgrade

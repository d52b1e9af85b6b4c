import Mathlib
import MavenUpgrade.Pom.Edit
import MavenUpgrade.Proofs.Collection.Traverse
import MavenUpgrade.Proofs.Patch
import MavenUpgrade.Proofs.Pom.Whereabouts

/-!
# The new texts of a patch

A patch that can be applied gives each of its targets one new text (`Pom.renewal`), which replaces
the plain text of an element that may be edited. Its edits put these texts into the pieces of the
document (`Applied.realizes`).
-/

namespace MavenUpgrade

open Edit (middleOf Realizes)
open Text (leadingBlanks trim IsTrimmed)
open Xml (IsLegible Item Layout Node Piece Renewal)

/-- The new text that a patch has for a target. -/
def Patch.change? (p : Patch) (target : PatchTarget) : Option String :=
  p.changes.lookup target

theorem Patch.mem_changes_of_change? {p : Patch} {target : PatchTarget} {text : String}
    (h : p.change? target = some text) : (target, text) ∈ p.changes := by
  obtain ⟨before, after, he, -⟩ := List.lookup_eq_some_iff.mp h
  rw [he]
  exact List.mem_append_right _ List.mem_cons_self

theorem Patch.exists_change? {p : Patch} {target : PatchTarget} {text : String}
    (h : (target, text) ∈ p.changes) : ∃ text', p.change? target = some text' := by
  rw [← Option.isSome_iff_exists, change?, List.lookup_isSome_iff]
  exact ⟨(target, text), h, beq_self_eq_true target⟩

/-- The new text of a property is what the patch says of it. -/
theorem Patch.change?_property (p : Patch) (scope : Scope) (name : String) :
    p.change? (.property scope name) = p.property? scope name := by
  have hmem {text : String} (h : (.property scope name, text) ∈ p.changes) :
      p.property? scope name = some text := by
    rcases List.mem_append.mp h with h | h
    · obtain ⟨d, -, he⟩ := List.mem_map.mp h
      cases he
    · obtain ⟨⟨s, n, v⟩, hm, he⟩ := List.mem_map.mp h
      obtain ⟨ht, rfl⟩ := Prod.mk.inj he
      obtain ⟨rfl, rfl⟩ := PatchTarget.property.inj ht
      exact (p.mem_propertyChanges_iff _ _ _).mp hm
  cases hp : p.property? scope name with
  | none =>
    rw [Option.eq_none_iff_forall_ne_some]
    intro text hc
    rw [hmem (mem_changes_of_change? hc)] at hp
    cases hp
  | some value =>
    have hm : (.property scope name, value) ∈ p.changes :=
      List.mem_append_right _ (List.mem_map.mpr
        ⟨_, (p.mem_propertyChanges_iff scope name value).mpr hp, rfl⟩)
    obtain ⟨text, hc⟩ := exists_change? hm
    rw [hc, ← hp, hmem (mem_changes_of_change? hc)]

/-- The new text of a dependency is that of its first override. -/
theorem Patch.change?_dependency (p : Patch) (package : Package) (origin : Origin) :
    p.change? (.dependency package origin) =
      (p.dependency? package origin).map (·.newRequire) := by
  -- the changes of properties come last and name no dependency
  have hchanges : p.changes =
      (p.dependencies.map fun d => (PatchTarget.dependency d.package d.origin, d.newRequire)) ++
        p.propertyChanges.map fun c => (.property c.1 c.2.1, c.2.2) := rfl
  have hproperties : (p.propertyChanges.map fun c =>
      (PatchTarget.property c.1 c.2.1, c.2.2)).lookup (.dependency package origin) = none := by
    rw [List.lookup_eq_none_iff]
    intro change hm
    obtain ⟨⟨s, n, v⟩, -, rfl⟩ := List.mem_map.mp hm
    rfl
  rw [change?, hchanges, List.lookup_append, hproperties, Option.or_none, dependency?]
  induction p.dependencies with
  | nil => rfl
  | cons d ds ih =>
    rw [List.map_cons, OrderedMap.lookup_cons_entry, List.find?_cons]
    by_cases hd : d.package = package ∧ d.origin = origin
    · obtain ⟨rfl, rfl⟩ := hd
      rw [if_pos rfl, decide_eq_true ⟨rfl, rfl⟩]
      rfl
    · have hne : PatchTarget.dependency package origin ≠ .dependency d.package d.origin := by
        intro he
        obtain ⟨hp, ho⟩ := PatchTarget.dependency.inj he
        exact hd ⟨hp.symm, ho.symm⟩
      rw [if_neg hne, decide_eq_false hd]
      exact ih

/-- A text that can be written in the place of another one so that it is read as it is. -/
structure IsWritable (text : String) : Prop where
  legible : IsLegible text.toList
  trimmed : IsTrimmed text.toList

instance (text : String) : Decidable (IsWritable text) :=
  decidable_of_iff (IsLegible text.toList ∧ IsTrimmed text.toList)
    ⟨fun ⟨h₁, h₂⟩ => ⟨h₁, h₂⟩, fun ⟨h₁, h₂⟩ => ⟨h₁, h₂⟩⟩

namespace Pom

/-- The text of the first declaration of a target. -/
def textOf? (pom : Pom) : PatchTarget → Option String
  | .dependency package origin =>
    (pom.dependencies.find? fun d => d.package = package ∧ d.origin = origin).map (·.declared)
  | .property scope name =>
    (pom.properties.find? fun p => p.scope = scope ∧ p.name = name).map (·.value)

/-- The texts that a patch replaces in a document hold no mark of XML. -/
def ReplacesPlain (pom : Pom) (patch : Patch) : Prop :=
  ∀ change ∈ patch.changes, ∀ text ∈ pom.textOf? change.1,
    '&' ∉ text.toList ∧ '<' ∉ text.toList

instance (pom : Pom) (patch : Patch) : Decidable (pom.ReplacesPlain patch) :=
  inferInstanceAs (Decidable (∀ _ ∈ _, _))

/-- The new texts that a patch puts into a document, by the offsets of what they replace. -/
def renewal (pom : Pom) (patch : Patch) : Renewal := fun offset =>
  ((patch.changes.map Prod.fst).find? fun target =>
    (pom.spanOf? target).join.map Span.start = some offset).bind fun target =>
      (patch.change? target).map String.toList

/-- A new text is that of a target whose text begins at the offset. -/
theorem exists_of_renewal {pom : Pom} {patch : Patch} {offset : Nat} {v : List Char}
    (h : pom.renewal patch offset = some v) :
    ∃ target text span, patch.change? target = some text ∧ v = text.toList ∧
      pom.spanOf? target = some (some span) ∧ span.start = offset := by
  obtain ⟨target, ht, hv⟩ := Option.bind_eq_some_iff.mp h
  obtain ⟨text, htext, rfl⟩ := Option.map_eq_some_iff.mp hv
  obtain ⟨hfound, -⟩ := List.find?_eq_some_iff_append.mp ht
  obtain ⟨span, hs, ho⟩ := Option.map_eq_some_iff.mp (of_decide_eq_true hfound)
  exact ⟨target, text, span, htext, rfl, Option.join_eq_some_iff.mp hs, ho⟩

/-! ## What a target names -/

variable {cs head : List Char} {project : Node} {root : Coordinates} {pieces : List Piece}

theorem mem_declaring_dependencies {d : DependencyDeclaration} :
    d ∈ (declaring project root).dependencies ↔ d ∈ declarations project :=
  List.mem_insertionSort _

/-- The declaration that a dependency target names. -/
theorem exists_dependency_of_spanOf? {pom : Pom} {package : Package} {origin : Origin} {span : Span}
    (h : pom.spanOf? (.dependency package origin) = some (some span)) :
    ∃ d ∈ pom.dependencies, d.package = package ∧ d.origin = origin ∧ d.span? = some span := by
  obtain ⟨d, hd, hs⟩ := Option.map_eq_some_iff.mp h
  obtain ⟨hkey, -⟩ := List.find?_eq_some_iff_append.mp hd
  obtain ⟨hp, ho⟩ := of_decide_eq_true hkey
  exact ⟨d, List.mem_of_find?_eq_some hd, hp, ho, hs⟩

/-- The declaration that a property target names. -/
theorem exists_property_of_spanOf? {pom : Pom} {scope : Scope} {name : String} {span : Span}
    (h : pom.spanOf? (.property scope name) = some (some span)) :
    ∃ p ∈ pom.properties, p.scope = scope ∧ p.name = name ∧ p.span? = some span := by
  obtain ⟨p, hp, hs⟩ := Option.map_eq_some_iff.mp h
  obtain ⟨hkey, -⟩ := List.find?_eq_some_iff_append.mp hp
  obtain ⟨hscope, hname⟩ := of_decide_eq_true hkey
  exact ⟨p, List.mem_of_find?_eq_some hp, hscope, hname, hs⟩

/-- A target with a text that can be edited names an element of the document. -/
theorem exists_of_spanOf? {target : PatchTarget} {span : Span}
    (h : (declaring project root).spanOf? target = some (some span)) :
    ∃ above parent element, project.Leads above parent ∧ element ∈ parent.children ∧
      Node.IsEditable parent element ∧ element.plainSpan? = some span ∧
        (declaring project root).textOf? target = some element.textContent := by
  cases target with
  | dependency package origin =>
    obtain ⟨d, hd, hs⟩ := Option.map_eq_some_iff.mp h
    obtain ⟨between, node, version, hl, hby, -⟩ :=
      exists_of_mem_declarations (mem_declaring_dependencies.mp (List.mem_of_find?_eq_some hd))
    refine ⟨_, node, version, hl, hby.child, Or.inr ⟨hby.kind, hby.name⟩, hby.span ▸ hs, ?_⟩
    rw [textOf?, hd, Option.map_some, hby.declared]
  | property scope name =>
    obtain ⟨p, hp, hs⟩ := Option.map_eq_some_iff.mp h
    obtain ⟨between, list, node, hl, hby, -⟩ :=
      exists_of_mem_allProperties (List.mem_of_find?_eq_some hp)
    refine ⟨_, list, node, hl, hby.child, Or.inl hby.kind, hby.span ▸ hs, ?_⟩
    rw [textOf?, hp, Option.map_some, hby.value]

/-- Where a target with a text that can be edited stands in the text of the document. -/
theorem exists_text_of_spanOf? {target : PatchTarget} {span : Span}
    (h : (declaring project root).spanOf? target = some (some span)) :
    ∃ s source, .text s source source ∈ project.items ∧ trim source ≠ [] ∧
      span = middleOf s source ∧
        (declaring project root).textOf? target = some (String.ofList (trim source)) := by
  obtain ⟨above, parent, element, hl, hc, -, hp, htext⟩ := exists_of_spanOf? h
  obtain ⟨s, source, hchildren, hne, rfl⟩ := Node.plainSpan?_eq_some_iff.mp hp
  have hmem : .text s source source ∈ element.children := hchildren ▸ List.mem_singleton_self _
  refine ⟨s, source, ((hl.snoc hc).snoc hmem).mem_items List.mem_cons_self, hne, rfl, ?_⟩
  rw [htext, Node.textContent_of_plain hchildren]

/-- The new texts fit the document. -/
theorem renewal_fits (hl : Layout cs project head pieces) {patch : Patch}
    (hw : ∀ change ∈ patch.changes, IsWritable change.2)
    (hp : (declaring project root).ReplacesPlain patch) :
    ((declaring project root).renewal patch).Fits (Piece.placed head.length pieces) ∧
      ∀ place ∈ Piece.placed head.length pieces,
        (((declaring project root).renewal patch).at? place.1 place.2.chars).isSome = true →
          place.1 ∈ project.items.map Item.start := by
  refine hl.fits fun x v hv => ?_
  obtain ⟨target, new, span, hc, rfl, hs, rfl⟩ := exists_of_renewal hv
  have hmem := Patch.mem_changes_of_change? hc
  obtain ⟨s, source, hi, hne, rfl, htext⟩ := exists_text_of_spanOf? hs
  have hplain := hp _ hmem _ htext
  rw [String.toList_ofList] at hplain
  rw [Text.mem_trim_iff (by decide), Text.mem_trim_iff (by decide)] at hplain
  exact ⟨(hw _ hmem).legible, s, source, hi, rfl, hne, hplain.1, hplain.2⟩

/-- New texts are put into elements that may be edited only. -/
theorem renewal_accepts (hl : Layout cs project head pieces) {patch : Patch}
    (hw : ∀ change ∈ patch.changes, IsWritable change.2) :
    project.Accepts ((declaring project root).renewal patch) := by
  intro above parent child s source content v hleads hc ht hv
  have hne := Edit.trim_ne_nil_of_at? hv
  rw [Renewal.at?, if_neg hne] at hv
  obtain ⟨target, new, span, hchange, rfl, hs, hstart⟩ := exists_of_renewal hv
  obtain ⟨above', parent', element, hleads', hc', hedit, hplain, -⟩ := exists_of_spanOf? hs
  obtain ⟨habove, rfl, hchildren⟩ := owner_unique hl (hleads.snoc hc) (hleads'.snoc hc') ht
    hne hplain hstart.symm
  obtain ⟨-, hparent⟩ := List.append_inj' habove rfl
  obtain rfl := List.singleton_inj.mp hparent
  have hwritable := hw _ (Patch.mem_changes_of_change? hchange)
  exact ⟨hedit, hchildren, hwritable.trimmed, hwritable.legible.ne_nil⟩

end Pom

/-! ## The edits of a patch -/

theorem Pom.editOf_eq_ok_iff {pom : Pom} {target : PatchTarget} {text : String} {e : Edit} :
    pom.editOf target text = .ok e ↔
      ∃ span, pom.spanOf? target = some (some span) ∧ e = ⟨span, escapeText text, target⟩ := by
  rw [editOf]
  constructor
  · intro h
    split at h
    · next span hs => exact ⟨span, hs, (Except.ok.inj h).symm⟩
    · cases h
    · cases h
  · rintro ⟨span, hs, rfl⟩
    rw [hs]

/-- A patch has been applied to a document: each of its changes has an edit, no two edits overlap,
and nothing else is changed. -/
structure Applied (text out : String) (pom : Pom) (patch : Patch) (edits : List Edit) : Prop where
  change : ∀ e ∈ edits, ∃ change ∈ patch.changes, pom.editOf change.1 change.2 = .ok e
  edit : ∀ change ∈ patch.changes, ∃ e ∈ edits, pom.editOf change.1 change.2 = .ok e
  apart : Edit.firstOverlap? edits = none
  out : out.toList = Edit.splice 0 edits text.toList

theorem changes_of_isEmpty {patch : Patch} (h : patch.isEmpty = true) : patch.changes = [] := by
  obtain ⟨hd, hp⟩ := patch.isEmpty_iff.mp h
  have hc : patch.propertyChanges = [] := by
    rw [List.eq_nil_iff_forall_not_mem]
    rintro ⟨scope, name, value⟩ hm
    rw [Patch.mem_propertyChanges_iff, hp] at hm
    cases hm
  rw [Patch.changes, hd, hc]
  rfl

/-- The text with the given edits, if no two of them overlap. -/
def spliced (text : String) (edits : List Edit) : Except PatchError String :=
  match Edit.firstOverlap? (edits.mergeSort Edit.comesBefore) with
  | some (e, f) => .error (.conflict e.target f.target)
  | none => .ok (String.ofList (Edit.splice 0 (edits.mergeSort Edit.comesBefore) text.toList))

/-- A patch with changes is applied by splicing their edits into the text. -/
theorem applyPatch_eq {text : String} {pom : Pom} {patch : Patch}
    (hread : Pom.read text = .ok pom) (h : ¬ patch.isEmpty = true) :
    applyPatch text patch =
      (patch.changes.mapM fun c => pom.editOf c.1 c.2).bind (spliced text) := by
  unfold applyPatch
  rw [if_neg h, hread]
  rfl

/-- A patch with changes is applied exactly when each change has an edit and no two edits overlap
once they are sorted. -/
theorem applyPatch_eq_ok_iff_edits {text out : String} {pom : Pom} {patch : Patch}
    (hread : Pom.read text = .ok pom) (h : ¬ patch.isEmpty = true) :
    applyPatch text patch = .ok out ↔
      ∃ edits, List.Forall₂ (fun c e => pom.editOf c.1 c.2 = .ok e) patch.changes edits ∧
        Edit.firstOverlap? (edits.mergeSort Edit.comesBefore) = none ∧
          out = String.ofList (Edit.splice 0 (edits.mergeSort Edit.comesBefore) text.toList) := by
  rw [applyPatch_eq hread h]
  constructor
  · intro happly
    cases hedits : patch.changes.mapM fun c => pom.editOf c.1 c.2 with
    | error e =>
      rw [hedits] at happly
      cases happly
    | ok edits =>
      rw [hedits] at happly
      have hspliced : spliced text edits = .ok out := happly
      rw [spliced] at hspliced
      split at hspliced
      · cases hspliced
      · next hnone =>
        exact ⟨edits, mapM_eq_ok_iff.mp hedits, hnone, (Except.ok.inj hspliced).symm⟩
  · rintro ⟨edits, hedits, hnone, rfl⟩
    rw [mapM_eq_ok_iff.mpr hedits]
    show spliced text edits = _
    rw [spliced, hnone]

/-- What `applyPatch` gives is the document with the patch applied. -/
theorem exists_applied {text out : String} {pom : Pom} {patch : Patch}
    (hread : Pom.read text = .ok pom) (h : applyPatch text patch = .ok out) :
    ∃ edits, Applied text out pom patch edits := by
  by_cases hempty : patch.isEmpty = true
  · -- an empty patch is not even read against the document
    unfold applyPatch at h
    rw [if_pos hempty] at h
    obtain rfl : text = out := Except.ok.inj h
    refine ⟨[], fun e he => absurd he List.not_mem_nil, fun change hm => ?_, rfl, rfl⟩
    rw [changes_of_isEmpty hempty] at hm
    cases hm
  · obtain ⟨edits, hedits, hnone, rfl⟩ := (applyPatch_eq_ok_iff_edits hread hempty).mp h
    refine ⟨edits.mergeSort Edit.comesBefore, fun e he => ?_, fun change hm => ?_, hnone,
      String.toList_ofList⟩
    · exact exists_mem_of_forall₂ hedits.flip (List.mem_mergeSort.mp he)
    · obtain ⟨e, he, hce⟩ := exists_mem_of_forall₂ hedits hm
      exact ⟨e, List.mem_mergeSort.mpr he, hce⟩

/-- A patch with a single change of a plain text replaces this text. -/
theorem applyPatch_of_single {text : String} {pom : Pom} {patch : Patch}
    {change : PatchTarget × String} {span : Span} (hread : Pom.read text = .ok pom)
    (hc : patch.changes = [change]) (hs : pom.spanOf? change.1 = some (some span)) :
    applyPatch text patch = .ok (String.ofList
      (Edit.splice 0 [⟨span, escapeText change.2, change.1⟩] text.toList)) := by
  have hne : ¬ patch.isEmpty = true := by
    intro he
    rw [changes_of_isEmpty he] at hc
    cases hc
  have hedit : pom.editOf change.1 change.2 = .ok ⟨span, escapeText change.2, change.1⟩ :=
    Pom.editOf_eq_ok_iff.mpr ⟨span, hs, rfl⟩
  have hsort : [Edit.mk span (escapeText change.2) change.1].mergeSort Edit.comesBefore =
      [⟨span, escapeText change.2, change.1⟩] := List.mergeSort_singleton _
  refine (applyPatch_eq_ok_iff_edits hread hne).mpr
    ⟨[⟨span, escapeText change.2, change.1⟩], ?_, ?_, ?_⟩
  · rw [hc]
    exact .cons hedit .nil
  · rw [hsort]
    rfl
  · rw [hsort]

/-- A patch with a single change of a plain text can be applied. -/
theorem exists_applyPatch {text : String} {pom : Pom} {patch : Patch}
    {change : PatchTarget × String} {span : Span} (hread : Pom.read text = .ok pom)
    (hc : patch.changes = [change]) (hs : pom.spanOf? change.1 = some (some span)) :
    ∃ out, applyPatch text patch = .ok out :=
  ⟨_, applyPatch_of_single hread hc hs⟩

namespace Applied

variable {text out : String} {project : Node} {root : Coordinates} {patch : Patch}
  {edits : List Edit} {head : List Char} {pieces : List Piece}

/-- An edit replaces the middle of a plain text of the document. -/
theorem exists_text (ha : Applied text out (Pom.declaring project root) patch edits) {e : Edit}
    (he : e ∈ edits) : ∃ s source, .text s source source ∈ project.items ∧ trim source ≠ [] ∧
      e.span = middleOf s source := by
  obtain ⟨change, -, hc⟩ := ha.change e he
  obtain ⟨span, hs, rfl⟩ := Pom.editOf_eq_ok_iff.mp hc
  obtain ⟨s, source, hi, hne, hspan, -⟩ := Pom.exists_text_of_spanOf? hs
  exact ⟨s, source, hi, hne, hspan⟩

/-- An edit replaces something. -/
theorem start_lt_stop (ha : Applied text out (Pom.declaring project root) patch edits) {e : Edit}
    (he : e ∈ edits) : e.span.start < e.span.stop := by
  obtain ⟨s, source, -, hne, hspan⟩ := ha.exists_text he
  have := Edit.middleOf_bounds s hne
  rw [hspan]
  omega

theorem pairwise (ha : Applied text out (Pom.declaring project root) patch edits) :
    edits.Pairwise fun e f => e.span.stop ≤ f.span.start :=
  Edit.pairwise_of_firstOverlap? ha.apart fun _ he => (ha.start_lt_stop he).le

/-- Edits that begin at the same place are the same. -/
theorem eq_of_start_eq (ha : Applied text out (Pom.declaring project root) patch edits)
    {e f : Edit} (he : e ∈ edits) (hf : f ∈ edits) (h : e.span.start = f.span.start) : e = f := by
  have hlt (g : Edit) (hg : g ∈ edits) : g.span.start < g.span.stop := ha.start_lt_stop hg
  have hapart := ha.pairwise
  clear ha
  induction edits with
  | nil => cases he
  | cons g rest ih =>
    obtain ⟨hg, hrest⟩ := List.pairwise_cons.mp hapart
    rcases List.mem_cons.mp he with rfl | he' <;> rcases List.mem_cons.mp hf with rfl | hf'
    · rfl
    · have h₁ := hg f hf'
      have h₂ := hlt e List.mem_cons_self
      omega
    · have h₁ := hg e he'
      have h₂ := hlt f List.mem_cons_self
      omega
    · exact ih he' hf' (fun g hg => hlt g (List.mem_cons_of_mem _ hg)) hrest

/-- **A target gets its new text where its old one begins.** -/
theorem renewal_eq (ha : Applied text out (Pom.declaring project root) patch edits)
    {target : PatchTarget} {new : String} (hc : patch.change? target = some new) :
    ∃ span, (Pom.declaring project root).spanOf? target = some (some span) ∧
      (Pom.declaring project root).renewal patch span.start = some new.toList ∧
        ⟨span, escapeText new, target⟩ ∈ edits := by
  have hmem := Patch.mem_changes_of_change? hc
  obtain ⟨e, he, hce⟩ := ha.edit _ hmem
  obtain ⟨span, hs, rfl⟩ := Pom.editOf_eq_ok_iff.mp hce
  refine ⟨span, hs, ?_, he⟩
  have hfound : ∃ target', (patch.changes.map Prod.fst).find? (fun target =>
      ((Pom.declaring project root).spanOf? target).join.map Span.start = some span.start) =
        some target' := by
    rw [← Option.isSome_iff_exists, List.find?_isSome]
    refine ⟨target, List.mem_map.mpr ⟨_, hmem, rfl⟩, ?_⟩
    rw [hs]
    exact decide_eq_true rfl
  obtain ⟨target', hfound⟩ := hfound
  -- another target whose text begins here would have an edit that overlaps this one
  have hsame : target' = target := by
    obtain ⟨hp, -⟩ := List.find?_eq_some_iff_append.mp hfound
    obtain ⟨span', hs', hstart⟩ := Option.map_eq_some_iff.mp (of_decide_eq_true hp)
    obtain ⟨⟨_, new'⟩, hmem', rfl⟩ := List.mem_map.mp (List.mem_of_find?_eq_some hfound)
    obtain ⟨e', he', hce'⟩ := ha.edit _ hmem'
    obtain ⟨span'', hs'', rfl⟩ := Pom.editOf_eq_ok_iff.mp hce'
    obtain rfl : span' = span'' :=
      Option.some.inj (Option.some.inj ((Option.join_eq_some_iff.mp hs').symm.trans hs''))
    exact congrArg Edit.target (ha.eq_of_start_eq he' he hstart)
  rw [Pom.renewal, hfound, Option.bind_some, hsame, hc]
  rfl

/-- What an edit writes is the new text of its target. -/
theorem renewal_of_mem (ha : Applied text out (Pom.declaring project root) patch edits) {e : Edit}
    (he : e ∈ edits) : ∃ new, patch.change? e.target = some new ∧
      (Pom.declaring project root).renewal patch e.span.start = some new.toList ∧
        e.replacement = escapeText new := by
  obtain ⟨⟨target, text'⟩, hmem, hce⟩ := ha.change e he
  obtain ⟨span, hs, rfl⟩ := Pom.editOf_eq_ok_iff.mp hce
  obtain ⟨new, hc⟩ := Patch.exists_change? hmem
  obtain ⟨span', hs', hnew, he'⟩ := ha.renewal_eq hc
  obtain rfl : span = span' := Option.some.inj (Option.some.inj (hs.symm.trans hs'))
  refine ⟨new, hc, hnew, ?_⟩
  exact congrArg Edit.replacement (ha.eq_of_start_eq he he' rfl)

/-- **The edits put the new texts into the pieces of the document.** -/
theorem realizes (ha : Applied text out (Pom.declaring project root) patch edits)
    (hl : Layout text.toList project head pieces) :
    Realizes ((Pom.declaring project root).renewal patch) (Piece.placed head.length pieces)
      edits := by
  obtain ⟨stop, hsound⟩ := hl.sound
  refine ⟨ha.pairwise, fun e he => ?_, fun start piece hplace hv => ?_⟩
  · obtain ⟨s, source, hi, hne, hspan⟩ := ha.exists_text he
    obtain ⟨new, -, hnew, hr⟩ := ha.renewal_of_mem he
    obtain ⟨piece, -, -, hplace, rfl, -⟩ := hsound.text s source source hi
    refine ⟨s, piece, new.toList, hplace, ?_, hspan, hr⟩
    rw [Renewal.at?, if_neg hne]
    rwa [hspan] at hnew
  · obtain ⟨v, hv⟩ := Option.isSome_iff_exists.mp hv
    have hne := Edit.trim_ne_nil_of_at? hv
    rw [Renewal.at?, if_neg hne] at hv
    obtain ⟨target, new, span, hc, -, hs, hstart⟩ := Pom.exists_of_renewal hv
    obtain ⟨span', hs', -, he⟩ := ha.renewal_eq hc
    obtain rfl : span = span' := Option.some.inj (Option.some.inj (hs.symm.trans hs'))
    refine ⟨_, he, ?_⟩
    obtain ⟨s, source, hi, hne', rfl, -⟩ := Pom.exists_text_of_spanOf? hs
    obtain ⟨piece', -, -, hplace', rfl, -⟩ := hsound.text s source source hi
    -- both pieces hold the place where the new text is put
    have hb := Edit.middleOf_bounds start hne
    have hb' := Edit.middleOf_bounds s hne'
    have hx : start ≤ (middleOf start piece.chars).start ∧
        (middleOf start piece.chars).start < start + piece.chars.length := by omega
    have hx' : s ≤ (middleOf start piece.chars).start ∧
        (middleOf start piece.chars).start < s + piece'.chars.length := by
      have hsame : (middleOf s piece'.chars).start = (middleOf start piece.chars).start := hstart
      omega
    obtain ⟨rfl, rfl⟩ := Piece.placed_unique hplace hplace' hx hx'
    rfl

end Applied

end MavenUpgrade

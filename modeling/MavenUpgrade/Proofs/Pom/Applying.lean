import Mathlib
import MavenUpgrade.Proofs.Pom.Renewal

/-!
# What an applied patch makes of a document

A document to which a patch has been applied can be read again. It declares what the document
declared before, with the new texts of the patch (`Pom.exists_follows`).
-/

namespace MavenUpgrade

open Xml (Layout Node Piece Renewal)

namespace DependencyDeclaration

/-- What a declaration says, wherever it stands. -/
def said (d : DependencyDeclaration) : DependencyDeclaration :=
  { d with span? := none, position := 0 }

/-- The package and the place, of which no two dependencies count. -/
def key (d : DependencyDeclaration) : Package × Origin :=
  (d.package, d.origin)

end DependencyDeclaration

namespace Pom

/-- The text of a declaration under the new texts of a patch. -/
def newText (pom : Pom) (patch : Patch) (span? : Option Span) (text : String) : String :=
  (pom.renewal patch).apply span? text

/-- What a dependency says under the new texts of a patch. -/
def retold (pom : Pom) (patch : Patch) (d : DependencyDeclaration) : DependencyDeclaration :=
  { d.said with declared := pom.newText patch d.span? d.declared }

/-- What a property says under the new texts of a patch. -/
def retoldProperty (pom : Pom) (patch : Patch) (p : PropertyDeclaration) : PropertyDeclaration :=
  { p.bare with value := pom.newText patch p.span? p.value }

/-- What a document declares once a patch has been applied to it: the declarations have the new
texts that replace theirs, and the coordinates are the same but for a version that the parent
gives. -/
structure Follows (pom : Pom) (patch : Patch) (pom' : Pom) : Prop where
  dependencies : pom'.dependencies.map (·.said) = pom.dependencies.map (pom.retold patch)
  properties : pom'.properties.map (·.bare) = pom.properties.map (pom.retoldProperty patch)
  /-- The first declaration of a dependency gets the new text. -/
  dependency : ∀ d, pom.dependencies.find?
    (fun e => e.package = d.package ∧ e.origin = d.origin) = some d →
      pom.newText patch d.span? d.declared =
        ((patch.dependency? d.package d.origin).map (·.newRequire)).getD d.declared
  /-- A property of which the patch says nothing keeps its value. -/
  kept : ∀ p ∈ pom.properties, patch.property? p.scope p.name = none →
    pom.newText patch p.span? p.value = p.value
  /-- The first declaration of a property of which the patch says something gets the new value. -/
  property : ∀ scope name value, patch.property? scope name = some value →
    ∃ p, pom.properties.find? (fun q => q.scope = scope ∧ q.name = name) = some p ∧
      pom.newText patch p.span? p.value = value
  groupId : pom'.root.groupId = pom.root.groupId
  artifactId : pom'.root.artifactId = pom.root.artifactId
  parentGroup : pom'.parent?.map (·.groupId) = pom.parent?.map (·.groupId)
  /-- Only a new version of the parent changes coordinates. -/
  coordinates : (∀ d ∈ patch.dependencies, d.origin ≠ .parent) →
    pom'.root = pom.root ∧ pom'.parent? = pom.parent?

variable {text out : String} {project : Node} {root : Coordinates} {patch : Patch}
  {edits : List Edit} {cs head : List Char} {pieces : List Piece}

/-! ## The texts of declarations -/

/-- A text that no changed target names keeps what it says. -/
theorem newText_of_forall {pom : Pom} {span? : Option Span} {text : String}
    (h : ∀ target new span span', patch.change? target = some new → span? = some span →
      pom.spanOf? target = some (some span') → span'.start ≠ span.start) :
    pom.newText patch span? text = text := by
  rw [newText, Renewal.apply]
  cases hs : span? with
  | none => rfl
  | some span =>
    rw [Option.bind_some]
    cases hv : pom.renewal patch span.start with
    | none => rfl
    | some v =>
      obtain ⟨target, new, span', hnew, -, hs', hstart⟩ := exists_of_renewal hv
      exact absurd hstart (h target new span span' hnew hs hs')

/-- A dependency that the patch says nothing of keeps its text. -/
theorem newText_of_change?_none (hl : Layout cs project head pieces) {d : DependencyDeclaration}
    (hd : d ∈ declarations project)
    (hc : patch.change? (.dependency d.package d.origin) = none) :
    (declaring project root).newText patch d.span? d.declared = d.declared := by
  refine newText_of_forall fun target new span span' hnew hs hs' hstart => ?_
  cases target with
  | dependency package origin =>
    -- two dependencies with one text are the same one
    obtain ⟨d', hd', rfl, rfl, hspan⟩ := exists_dependency_of_spanOf? hs'
    obtain ⟨hp, ho⟩ := dependency_unique hl (mem_declaring_dependencies.mp hd') hd hspan hs hstart
    rw [hp, ho, hc] at hnew
    cases hnew
  | property scope name =>
    obtain ⟨p, hp, -, -, hspan⟩ := exists_property_of_spanOf? hs'
    exact dependency_ne_property hl hd hp hs hspan hstart.symm

/-- A property that the patch says nothing of keeps its value. -/
theorem newText_of_property?_none (hl : Layout cs project head pieces) {p : PropertyDeclaration}
    (hp : p ∈ allProperties project) (hc : patch.property? p.scope p.name = none) :
    (declaring project root).newText patch p.span? p.value = p.value := by
  refine newText_of_forall fun target new span span' hnew hs hs' hstart => ?_
  cases target with
  | dependency package origin =>
    obtain ⟨d, hd, -, -, hspan⟩ := exists_dependency_of_spanOf? hs'
    exact dependency_ne_property hl (mem_declaring_dependencies.mp hd) hp hspan hs hstart
  | property scope name =>
    -- two properties with one text have the same scope and name
    obtain ⟨p', hp', rfl, rfl, hspan⟩ := exists_property_of_spanOf? hs'
    obtain ⟨hscope, hname⟩ := property_unique hl hp' hp hspan hs hstart
    rw [Patch.change?_property, hscope, hname, hc] at hnew
    cases hnew

/-- The first declaration of a dependency gets the new text, if there is one. -/
theorem newText_dependency (ha : Applied text out (declaring project root) patch edits)
    (hl : Layout text.toList project head pieces) {d : DependencyDeclaration}
    (hd : (declaring project root).dependencies.find?
      (fun e => e.package = d.package ∧ e.origin = d.origin) = some d) :
    (declaring project root).newText patch d.span? d.declared =
      ((patch.dependency? d.package d.origin).map (·.newRequire)).getD d.declared := by
  rw [← Patch.change?_dependency]
  cases hc : patch.change? (.dependency d.package d.origin) with
  | none =>
    exact newText_of_change?_none hl
      (mem_declaring_dependencies.mp (List.mem_of_find?_eq_some hd)) hc
  | some new =>
    obtain ⟨span, hs, hnew, -⟩ := ha.renewal_eq hc
    rw [spanOf?, hd] at hs
    have hs' : d.span? = some span := Option.some.inj hs
    rw [newText, Renewal.apply, hs', Option.bind_some, hnew, Option.map_some, String.ofList_toList]

/-- The first declaration of a property gets the new value, if there is one. -/
theorem newText_property (ha : Applied text out (declaring project root) patch edits)
    {scope : Scope} {name value : String} (hc : patch.property? scope name = some value) :
    ∃ p, (declaring project root).properties.find?
        (fun q => q.scope = scope ∧ q.name = name) = some p ∧
      (declaring project root).newText patch p.span? p.value = value := by
  rw [← Patch.change?_property] at hc
  obtain ⟨span, hs, hnew, -⟩ := ha.renewal_eq hc
  obtain ⟨p, hp, hspan⟩ := Option.map_eq_some_iff.mp hs
  refine ⟨p, hp, ?_⟩
  rw [newText, Renewal.apply, hspan, Option.bind_some, hnew, Option.map_some, String.ofList_toList]
  rfl

/-! ## Reading the document again -/

/-- The position of a dependency is that of an element. -/
theorem exists_item_of_mem {d : DependencyDeclaration} (h : d ∈ declarations project) :
    ∃ item ∈ project.items, item.start = d.position := by
  obtain ⟨between, node, version, hl, hby, -⟩ := exists_of_mem_declarations h
  have helement : .element node.start ∈ node.items := by
    cases node with
    | element start name children => exact List.mem_cons_self
    | text => rcases hby.kind with h | h <;> cases h
    | aside => rcases hby.kind with h | h <;> cases h
  exact ⟨_, hl.mem_items helement, hby.position.symm⟩

/-- A parent with coordinates is depended on. -/
theorem exists_parentDependency? {c : Coordinates} (hc : parentOf? project = some c) :
    ∃ d, parentDependency? project = some d ∧
      d.package = .ofCoordinates c.groupId c.artifactId ∧ d.origin = .parent ∧
        d.declared = c.version := by
  obtain ⟨node, hn, hc'⟩ := Option.bind_eq_some_iff.mp hc
  obtain ⟨group, -, hc'⟩ := Option.bind_eq_some_iff.mp hc'
  obtain ⟨artifact, -, hc'⟩ := Option.bind_eq_some_iff.mp hc'
  obtain ⟨said, hsaid, hc'⟩ := Option.bind_eq_some_iff.mp hc'
  obtain ⟨hv, hne⟩ := Option.filter_eq_some_iff.mp hsaid
  obtain ⟨version, hversion, rfl⟩ := Option.map_eq_some_iff.mp hv
  have hc'' : some (Coordinates.mk group artifact version.textContent) = some c := hc'
  obtain rfl := Option.some.inj hc''
  refine ⟨⟨.ofCoordinates group artifact, .parent, version.textContent, none, version.plainSpan?,
    node.start⟩, ?_, rfl, rfl, rfl⟩
  rw [Bool.not_eq_true'] at hne
  rw [parentDependency?, hn, hc]
  show (node.child? "version").bind (fun v => dependencyOf? (.ofCoordinates group artifact)
    .parent v none node.start) = _
  rw [hversion, Option.bind_some, dependencyOf?, hne]
  rfl

/-- A document that can be read has a project with coordinates as its root. -/
theorem exists_of_read {pom : Pom} (h : read text = .ok pom) :
    ∃ project root, Xml.readDocument? text.toList = some project ∧
      project.name? = some "project" ∧ rootOf project = .ok root ∧
        pom = declaring project root := by
  rw [read] at h
  split at h
  · next project hd =>
    split at h
    · next hname =>
      rw [ofProject_eq] at h
      cases hr : rootOf project with
      | error e =>
        rw [hr] at h
        cases h
      | ok root =>
        rw [hr] at h
        exact ⟨project, root, hd, hname, hr, (Except.ok.inj h).symm⟩
    · cases h
  · cases h

/-- The dependencies stay in the same order. -/
theorem dependencies_rewrite {new : Renewal} {shift : Nat → Nat} (h : project.Accepts new)
    (hshift : ∀ item ∈ project.items, ∀ x, item.start < x → shift item.start < shift x)
    (root' : Coordinates) :
    (declaring (project.rewrite new shift) root').dependencies.map (·.said) =
      (declaring project root).dependencies.map fun d =>
        { d.said with declared := new.apply d.span? d.declared } := by
  have hnew : ((declarations (project.rewrite new shift)).insertionSort
      fun d e => d.position ≤ e.position).map (·.bare) =
        ((declarations (project.rewrite new shift)).map (·.bare)).insertionSort
          fun d e => d.position ≤ e.position :=
    List.map_insertionSort _ _ _ _ fun _ _ _ _ => Iff.rfl
  -- nodes keep their order, and with them the declarations
  have hold : ((declarations project).insertionSort fun d e => d.position ≤ e.position).map
      (DependencyDeclaration.renew new shift) =
        ((declarations project).map (DependencyDeclaration.renew new shift)).insertionSort
          fun d e => d.position ≤ e.position := by
    refine List.map_insertionSort _ _ _ _ fun d hd e he => ?_
    obtain ⟨item, hi, hs⟩ := exists_item_of_mem hd
    obtain ⟨item', hi', hs'⟩ := exists_item_of_mem he
    show d.position ≤ e.position ↔ shift d.position ≤ shift e.position
    have h₁ := hshift item hi e.position
    have h₂ := hshift item' hi' d.position
    rw [hs] at h₁
    rw [hs'] at h₂
    rcases Nat.lt_trichotomy d.position e.position with hlt | heq | hgt
    · have := h₁ hlt
      omega
    · rw [heq]
      exact iff_of_true (le_refl _) (le_refl _)
    · have := h₂ hgt
      omega
  have hbare : (declaring (project.rewrite new shift) root').dependencies.map (·.bare) =
      (declaring project root).dependencies.map (DependencyDeclaration.renew new shift) := by
    show ((declarations (project.rewrite new shift)).insertionSort
      fun d e => d.position ≤ e.position).map (·.bare) =
        ((declarations project).insertionSort fun d e => d.position ≤ e.position).map
          (DependencyDeclaration.renew new shift)
    rw [hnew, hold, declarations_rewrite h]
  have hsaid := congrArg (List.map DependencyDeclaration.said) hbare
  rw [List.map_map, List.map_map] at hsaid
  exact hsaid

/-- The reference to the parent stays if no override is one of the parent. -/
theorem parentOf?_rewrite_of_ne_parent (shift : Nat → Nat) (hl : Layout cs project head pieces)
    (haccepts : project.Accepts ((declaring project root).renewal patch))
    (hover : ∀ d ∈ patch.dependencies, d.origin ≠ .parent) :
    parentOf? (project.rewrite ((declaring project root).renewal patch) shift) =
      parentOf? project := by
  rw [(parent_rewrite shift haccepts).1]
  cases hc : parentOf? project with
  | none => rfl
  | some c =>
    obtain ⟨d, hd, -, horigin, hversion⟩ := exists_parentDependency? hc
    have hmem : d ∈ declarations project :=
      List.mem_append_left _ (List.mem_append_left _ (Option.mem_toList.mpr hd))
    have hnone : patch.change? (.dependency d.package d.origin) = none := by
      rw [Patch.change?_dependency, Option.map_eq_none_iff, Patch.dependency?, List.find?_eq_none]
      intro e he hkey
      obtain ⟨-, ho⟩ := of_decide_eq_true hkey
      exact hover e he (ho.trans horigin)
    rw [Option.map_some, parentVersion, hd, Option.map_some, ← newText,
      newText_of_change?_none hl hmem hnone, hversion]
    rfl

/-- A patch has been applied to the document of a project: the new document can be read, and its
project is the old one with the new texts of the patch. -/
structure Rewritten (text out : String) (patch : Patch) (project : Node) (root : Coordinates)
    (shift : Nat → Nat) (root' : Coordinates) : Prop where
  document : Xml.readDocument? text.toList = some project
  name : project.name? = some "project"
  coordinates : rootOf project = .ok root
  layout : ∃ head pieces, Layout text.toList project head pieces
  applied : ∃ edits, Applied text out (declaring project root) patch edits
  accepts : project.Accepts ((declaring project root).renewal patch)
  /-- Nodes keep their order. -/
  order : ∀ item ∈ project.items, ∀ x, item.start < x → shift item.start < shift x
  newCoordinates : rootOf (project.rewrite ((declaring project root).renewal patch) shift) = .ok root'
  reading : read out =
    .ok (declaring (project.rewrite ((declaring project root).renewal patch) shift) root')

/-- **A document to which a patch has been applied is that of the project with the new texts.** -/
theorem exists_rewritten {pom : Pom} (hread : read text = .ok pom)
    (hw : ∀ change ∈ patch.changes, IsWritable change.2) (hp : pom.ReplacesPlain patch)
    (happly : applyPatch text patch = .ok out) :
    ∃ project root shift root', pom = declaring project root ∧
      Rewritten text out patch project root shift root' := by
  obtain ⟨edits, ha⟩ := exists_applied hread happly
  obtain ⟨project, root, hd, hname, hroot, rfl⟩ := exists_of_read hread
  obtain ⟨head, pieces, hl⟩ := Xml.exists_layout hd
  obtain ⟨hfit, hbegins⟩ := renewal_fits hl hw hp
  have haccepts : project.Accepts ((declaring project root).renewal patch) :=
    renewal_accepts hl hw
  obtain ⟨shift, hshift, hd'⟩ := hl.readDocument?_rewrite hfit hbegins
  -- what is spliced together is made of the pieces with their new texts
  have hout : out.toList = head ++ (Piece.rewriteAll ((declaring project root).renewal patch)
      head.length pieces).flatMap Piece.chars := by
    rw [ha.out, hl.text]
    exact Edit.splice_eq_rewriteAll (ha.realizes hl) hfit (Nat.zero_add _)
  have hname' : (project.rewrite ((declaring project root).renewal patch) shift).name? =
      some "project" := (Node.name?_rewrite project).trans hname
  obtain ⟨root', hroot', -⟩ := rootOf_rewrite shift haccepts hname hroot
  refine ⟨project, root, shift, root', rfl, hd, hname, hroot, ⟨head, pieces, hl⟩, ⟨edits, ha⟩,
    haccepts, hshift, hroot', ?_⟩
  rw [read_of_root hout hd' hname', hroot']
  rfl

/-- **A document to which a patch has been applied declares the new texts.** -/
theorem exists_follows {pom : Pom} (hread : read text = .ok pom)
    (hw : ∀ change ∈ patch.changes, IsWritable change.2) (hp : pom.ReplacesPlain patch)
    (happly : applyPatch text patch = .ok out) :
    ∃ pom', read out = .ok pom' ∧ pom.Follows patch pom' := by
  obtain ⟨project, root, shift, root', rfl, h⟩ := exists_rewritten hread hw hp happly
  obtain ⟨head, pieces, hl⟩ := h.layout
  obtain ⟨edits, ha⟩ := h.applied
  obtain ⟨root'', hroot', hgroup, hartifact, hsame⟩ :=
    rootOf_rewrite shift h.accepts h.name h.coordinates
  obtain rfl : root'' = root' := Except.ok.inj (hroot'.symm.trans h.newCoordinates)
  have hparent := (parent_rewrite shift h.accepts).1
  refine ⟨_, h.reading, dependencies_rewrite h.accepts h.order root'',
    allProperties_rewrite h.accepts, fun d hd => newText_dependency ha hl hd,
    fun p hp hc => newText_of_property?_none hl hp hc,
    fun scope name value hc => newText_property ha hc, hgroup, hartifact, ?_, fun hover => ?_⟩
  · show (parentOf? _).map _ = (parentOf? project).map _
    rw [hparent, Option.map_map]
    rfl
  · have hkeep := parentOf?_rewrite_of_ne_parent shift hl h.accepts hover
    exact ⟨hsame hkeep, hkeep⟩

end Pom

end MavenUpgrade

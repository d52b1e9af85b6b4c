import Mathlib
import MavenUpgrade.Proofs.Pom.Distinct
import MavenUpgrade.Proofs.Pom.Editing

/-!
# What a patched document declares

A patched document declares the same dependencies and properties as before, in the same order. The
first declarations of the targets of the patch say the new texts and all others what they said
before; of the coordinates only a version that the parent gives is new (`Pom.Patched`).
-/

namespace MavenUpgrade

open Xml (Layout Node Piece Renewal)

/-! ## First declarations -/

/-- Among things whose spans begin at different offsets, one that shares the beginning of its span
with the first of some kind is this first one. -/
theorem eq_of_find?_of_separate {α : Type} {span? : α → Option Span} {p : α → Bool}
    {xs : List α} {i : Nat} {x y : α} {a b : Span}
    (h : xs.Pairwise fun x y => Span.Separate (span? x) (span? y)) (hi : xs[i]? = some x)
    (hy : xs.find? p = some y) (ha : span? x = some a) (hb : span? y = some b)
    (heq : a.start = b.start) : x = y ∧ ∀ z ∈ xs.take i, ¬ p z = true := by
  obtain ⟨-, before, after, rfl, hbefore⟩ := List.find?_eq_some_iff_append.mp hy
  obtain ⟨-, hafter, hacross⟩ := List.pairwise_append.mp h
  have hbehind := (List.pairwise_cons.mp hafter).1
  rcases Nat.lt_trichotomy i before.length with hlt | rfl | hgt
  · rw [List.getElem?_append_left hlt] at hi
    exact absurd heq (hacross x (List.mem_of_getElem? hi) y List.mem_cons_self a ha b hb)
  · rw [List.getElem?_append_right (le_refl _), Nat.sub_self, List.getElem?_cons_zero] at hi
    refine ⟨(Option.some.inj hi).symm, fun z hz hp => ?_⟩
    rw [List.take_left] at hz
    have := hbefore z hz
    rw [hp] at this
    cases this
  · obtain ⟨k, hk⟩ := Nat.exists_eq_add_of_lt hgt
    rw [List.getElem?_append_right (by omega), hk,
      show before.length + k + 1 - before.length = k + 1 by omega,
      List.getElem?_cons_succ] at hi
    exact absurd heq.symm (hbehind x (List.mem_of_getElem? hi) b hb a ha)

namespace Pom

variable {text out : String} {pom : Pom} {project : Node} {root : Coordinates} {patch : Patch}
  {cs head : List Char} {pieces : List Piece}

/-- The dependencies in document order have texts of their own. -/
theorem pairwise_dependencies (hl : Layout cs project head pieces) :
    (declaring project root).dependencies.Pairwise
      fun d e => Span.Separate d.span? e.span? :=
  ((List.perm_insertionSort _ _).pairwise_iff fun h => h.symm).mpr (pairwise_declarations hl)

/-- A dependency that is not the first one of its package and origin keeps its text. -/
theorem newText_of_later_dependency (hl : Layout cs project head pieces) {i : Nat}
    {d e : DependencyDeclaration} (hi : (declaring project root).dependencies[i]? = some d)
    (he : e ∈ (declaring project root).dependencies.take i) (hp : e.package = d.package)
    (ho : e.origin = d.origin) :
    (declaring project root).newText patch d.span? d.declared = d.declared := by
  refine newText_of_forall fun target new span span' hnew hs hs' hstart => ?_
  cases target with
  | dependency package origin =>
    obtain ⟨first, hfirst, hspan⟩ := Option.map_eq_some_iff.mp hs'
    obtain ⟨rfl, hnone⟩ :=
      eq_of_find?_of_separate (pairwise_dependencies hl) hi hfirst hs hspan hstart.symm
    obtain ⟨hkey, -⟩ := List.find?_eq_some_iff_append.mp hfirst
    obtain ⟨rfl, rfl⟩ := of_decide_eq_true hkey
    exact hnone e he (decide_eq_true ⟨hp, ho⟩)
  | property scope name =>
    obtain ⟨p, hp, -, -, hspan⟩ := exists_property_of_spanOf? hs'
    exact dependency_ne_property hl (mem_declaring_dependencies.mp (List.mem_of_getElem? hi)) hp hs
      hspan hstart.symm

/-- A property that is not the first one of its scope and name keeps its value. -/
theorem newText_of_later_property (hl : Layout cs project head pieces) {i : Nat}
    {p q : PropertyDeclaration} (hi : (allProperties project)[i]? = some p)
    (hq : q ∈ (allProperties project).take i) (hscope : q.scope = p.scope)
    (hname : q.name = p.name) :
    (declaring project root).newText patch p.span? p.value = p.value := by
  refine newText_of_forall fun target new span span' hnew hs hs' hstart => ?_
  cases target with
  | dependency package origin =>
    obtain ⟨d, hd, -, -, hspan⟩ := exists_dependency_of_spanOf? hs'
    exact dependency_ne_property hl (mem_declaring_dependencies.mp hd) (List.mem_of_getElem? hi)
      hspan hs hstart
  | property scope name =>
    obtain ⟨first, hfirst, hspan⟩ := Option.map_eq_some_iff.mp hs'
    obtain ⟨rfl, hnone⟩ :=
      eq_of_find?_of_separate (pairwise_allProperties hl) hi hfirst hs hspan hstart.symm
    obtain ⟨hkey, -⟩ := List.find?_eq_some_iff_append.mp hfirst
    obtain ⟨rfl, rfl⟩ := of_decide_eq_true hkey
    exact hnone q hq (decide_eq_true ⟨hscope, hname⟩)

/-! ## The parent and the coordinates -/

/-- No other dependency has the origin of that on the parent. -/
theorem parentDependency?_of_origin {d : DependencyDeclaration} (hd : d ∈ declarations project)
    (ho : d.origin = .parent) : parentDependency? project = some d := by
  rw [declarations, List.mem_append, List.mem_append] at hd
  rcases hd with (hd | hd) | hd
  · exact Option.mem_toList.mp hd
  · obtain ⟨first, between, _, _, -, -, ho', -⟩ := exists_of_mem_sectionDependencies hd
    rw [ho] at ho'
    cases hsection : sectionOf (first :: between) <;> rw [hsection] at ho' <;> cases ho'
  · obtain ⟨⟨id, profile⟩, -, hd⟩ := List.mem_flatMap.mp hd
    obtain ⟨_, _, _, _, -, -, ho', -⟩ := exists_of_mem_sectionDependencies hd
    rw [ho] at ho'
    cases ho'

/-- The dependency on the parent is the first one of its package and origin. -/
theorem find?_parentDependency {d : DependencyDeclaration}
    (hd : parentDependency? project = some d) (ho : d.origin = .parent) :
    (declaring project root).dependencies.find?
      (fun e => e.package = d.package ∧ e.origin = d.origin) = some d := by
  have hmem : d ∈ (declaring project root).dependencies :=
    mem_declaring_dependencies.mpr
      (List.mem_append_left _ (List.mem_append_left _ (Option.mem_toList.mpr hd)))
  have hsome : ((declaring project root).dependencies.find?
      fun e => e.package = d.package ∧ e.origin = d.origin).isSome = true :=
    List.find?_isSome.mpr ⟨d, hmem, decide_eq_true ⟨rfl, rfl⟩⟩
  obtain ⟨e, he⟩ := Option.isSome_iff_exists.mp hsome
  obtain ⟨hkey, -⟩ := List.find?_eq_some_iff_append.mp he
  obtain ⟨-, ho'⟩ := of_decide_eq_true hkey
  have he' := parentDependency?_of_origin
    (mem_declaring_dependencies.mp (List.mem_of_find?_eq_some he)) (ho'.trans ho)
  rw [he, ← he', hd]

/-- The project takes its version from its parent. -/
def InheritsVersion (text : String) : Prop :=
  ∃ project, Xml.readDocument? text.toList = some project ∧ project.childText? "version" = none

variable {shift : Nat → Nat} {root' : Coordinates}

namespace Rewritten

/-- The parent has the version that the patch has for the dependency on it. -/
theorem parent (h : Rewritten text out patch project root shift root') :
    parentOf? (project.rewrite ((declaring project root).renewal patch) shift) =
      (parentOf? project).map fun c => { c with
        version := ((patch.dependency? (.ofCoordinates c.groupId c.artifactId) .parent).map
          (·.newRequire)).getD c.version } := by
  obtain ⟨head, pieces, hl⟩ := h.layout
  obtain ⟨edits, ha⟩ := h.applied
  rw [(parent_rewrite shift h.accepts).1]
  cases hc : parentOf? project with
  | none => rfl
  | some c =>
    obtain ⟨d, hd, hpackage, horigin, hversion⟩ := exists_parentDependency? hc
    have hnew := newText_dependency ha hl (find?_parentDependency hd horigin)
    rw [hpackage, horigin, hversion] at hnew
    rw [Option.map_some, Option.map_some, parentVersion, hd, Option.map_some, Option.getD_some,
      hversion, ← hnew]
    rfl

/-- The project has the coordinates that it had, but for a version that it takes from its
parent. -/
theorem root_eq (h : Rewritten text out patch project root shift root') :
    (¬ InheritsVersion text → root' = root) ∧
      (InheritsVersion text → ∃ c,
        parentOf? (project.rewrite ((declaring project root).renewal patch) shift) = some c ∧
          root' = { root with version := c.version }) := by
  obtain ⟨root'', hroot', hgroup, hartifact, -⟩ :=
    rootOf_rewrite shift h.accepts h.name h.coordinates
  obtain rfl : root'' = root' := Except.ok.inj (hroot'.symm.trans h.newCoordinates)
  obtain ⟨-, -, hversion⟩ := rootOf_eq_ok_iff.mp h.coordinates
  obtain ⟨-, -, hversion'⟩ := rootOf_eq_ok_iff.mp hroot'
  have hkept : (project.rewrite ((declaring project root).renewal patch) shift).childText?
      "version" = project.childText? "version" :=
    h.accepts.childText?_rewrite h.name (by decide) fun _ => ⟨by decide, by decide⟩
  rw [hkept] at hversion'
  constructor
  · intro hown
    cases hv : project.childText? "version" with
    | none => exact absurd ⟨project, h.document, hv⟩ hown
    | some v =>
      rw [hv, Option.some_or] at hversion hversion'
      have he : root''.version = root.version :=
        Option.some.inj (hversion'.symm.trans hversion)
      calc root'' = ⟨root''.groupId, root''.artifactId, root''.version⟩ := rfl
        _ = root := by rw [hgroup, hartifact, he]
  · rintro ⟨project', hd, hv⟩
    obtain rfl : project = project' := Option.some.inj (h.document.symm.trans hd)
    rw [hv, Option.none_or] at hversion'
    obtain ⟨c, hc, he⟩ := Option.map_eq_some_iff.mp hversion'
    refine ⟨c, hc, ?_⟩
    calc root'' = ⟨root''.groupId, root''.artifactId, root''.version⟩ := rfl
      _ = { root with version := c.version } := by rw [hgroup, hartifact, he]

end Rewritten

/-! ## The patched document -/

/-- What is read of a document once a patch has been applied to it. -/
structure Patched (text : String) (pom : Pom) (patch : Patch) (pom' : Pom) : Prop where
  /-- The dependencies are the same, but for their versions. -/
  dependencies : pom'.dependencies.map (fun d => (d.package, d.origin, d.tag?)) =
    pom.dependencies.map fun d => (d.package, d.origin, d.tag?)
  /-- The properties are the same, but for their values. -/
  properties : pom'.properties.map (fun p => (p.scope, p.name)) =
    pom.properties.map fun p => (p.scope, p.name)
  /-- The first declaration of each target says the new text. -/
  target : ∀ change ∈ patch.changes, pom'.textOf? change.1 = some change.2
  /-- A dependency that is no target, or not the first one, keeps its version. -/
  version : ∀ i d d', pom.dependencies[i]? = some d → pom'.dependencies[i]? = some d' →
    ((∀ change ∈ patch.changes, change.1 ≠ .dependency d.package d.origin) ∨
      ∃ e ∈ pom.dependencies.take i, e.package = d.package ∧ e.origin = d.origin) →
        d'.declared = d.declared
  /-- A property that is no target, or not the first one, keeps its value. -/
  value : ∀ i p p', pom.properties[i]? = some p → pom'.properties[i]? = some p' →
    ((∀ change ∈ patch.changes, change.1 ≠ .property p.scope p.name) ∨
      ∃ q ∈ pom.properties.take i, q.scope = p.scope ∧ q.name = p.name) → p'.value = p.value
  /-- The parent has the version of the dependency on it. -/
  parent : pom'.parent? = pom.parent?.map fun c => { c with
    version := ((patch.dependency? (.ofCoordinates c.groupId c.artifactId) .parent).map
      (·.newRequire)).getD c.version }
  root : ¬ InheritsVersion text → pom'.root = pom.root
  /-- A version that is taken from the parent is the new one of the parent. -/
  inherited : InheritsVersion text →
    ∃ c, pom'.parent? = some c ∧ pom'.root = { pom.root with version := c.version }

/-- A change of a patch that is applied is what the patch says of its target. -/
theorem change?_of_mem (hread : read text = .ok pom) (happly : applyPatch text patch = .ok out)
    {change : PatchTarget × String} (hc : change ∈ patch.changes) :
    patch.change? change.1 = some change.2 := by
  have hnd := nodup_targets_of_applyPatch hread happly
  obtain ⟨before, after, he⟩ := List.append_of_mem hc
  rw [he, List.map_append, List.map_cons, List.nodup_append] at hnd
  refine List.lookup_eq_some_iff.mpr ⟨before, after, he, fun other ho => ?_⟩
  rw [bne_iff_ne]
  intro hsame
  exact hnd.2.2 other.1 (List.mem_map_of_mem ho) change.1 List.mem_cons_self hsame.symm

/-- A target that no change names is one that the patch says nothing of. -/
theorem change?_eq_none {target : PatchTarget} (h : ∀ change ∈ patch.changes, change.1 ≠ target) :
    patch.change? target = none := by
  refine List.lookup_eq_none_iff.mpr fun change hc => ?_
  rw [bne_iff_ne]
  exact fun he => h change hc he.symm

/-- The first declaration of a target says the new text. -/
theorem Follows.textOf? {pom' : Pom} (h : pom.Follows patch pom') {target : PatchTarget}
    {new : String} (hnew : patch.change? target = some new)
    (hdeclared : (pom.spanOf? target).isSome = true) : pom'.textOf? target = some new := by
  cases target with
  | dependency package origin =>
    rw [spanOf?, Option.isSome_map, Option.isSome_iff_exists] at hdeclared
    obtain ⟨d, hd⟩ := hdeclared
    obtain ⟨hkey, -⟩ := List.find?_eq_some_iff_append.mp hd
    obtain ⟨rfl, rfl⟩ := of_decide_eq_true hkey
    have htext := h.dependency d hd
    rw [← Patch.change?_dependency, hnew] at htext
    calc pom'.textOf? (.dependency d.package d.origin)
        = ((pom'.dependencies.map (·.said)).find? fun e =>
            e.package = d.package ∧ e.origin = d.origin).map (·.declared) := by
          rw [List.find?_map, Option.map_map]
          rfl
      _ = ((pom.dependencies.map (pom.retold patch)).find? fun e =>
            e.package = d.package ∧ e.origin = d.origin).map (·.declared) := by
          rw [h.dependencies]
      _ = (pom.dependencies.find? fun e => e.package = d.package ∧ e.origin = d.origin).map
            fun e => pom.newText patch e.span? e.declared := by
          rw [List.find?_map, Option.map_map]
          rfl
      _ = some new := by
          rw [hd, Option.map_some, htext]
          rfl
  | property scope name =>
    rw [Patch.change?_property] at hnew
    obtain ⟨p, hp, hvalue⟩ := h.property scope name new hnew
    calc pom'.textOf? (.property scope name)
        = ((pom'.properties.map (·.bare)).find? fun q =>
            q.scope = scope ∧ q.name = name).map (·.value) := by
          rw [List.find?_map, Option.map_map]
          rfl
      _ = ((pom.properties.map (pom.retoldProperty patch)).find? fun q =>
            q.scope = scope ∧ q.name = name).map (·.value) := by
          rw [h.properties]
      _ = (pom.properties.find? fun q => q.scope = scope ∧ q.name = name).map
            fun q => pom.newText patch q.span? q.value := by
          rw [List.find?_map, Option.map_map]
          rfl
      _ = some new := by rw [hp, Option.map_some, hvalue]

/-- What stands at an index of a list that is mapped to the same as another one. -/
theorem eq_of_map_eq {α β γ : Type} {f : α → γ} {g : β → γ} {xs : List α} {ys : List β}
    (h : ys.map g = xs.map f) {i : Nat} {x : α} {y : β} (hx : xs[i]? = some x)
    (hy : ys[i]? = some y) : g y = f x := by
  have hi := congrArg (·[i]?) h
  simp only [List.getElem?_map, hx, hy, Option.map_some] at hi
  exact Option.some.inj hi

/-- **A patched document declares what the document declared, with the new texts of the patch.** -/
theorem exists_patched (hread : read text = .ok pom)
    (hw : ∀ change ∈ patch.changes, IsWritable change.2) (hp : pom.ReplacesPlain patch)
    (happly : applyPatch text patch = .ok out) :
    ∃ pom', read out = .ok pom' ∧ Patched text pom patch pom' := by
  obtain ⟨pom', hread', hf⟩ := exists_follows hread hw hp happly
  obtain ⟨project, root, shift, root', rfl, hr⟩ := exists_rewritten hread hw hp happly
  obtain rfl := Except.ok.inj (hread'.symm.trans hr.reading)
  obtain ⟨head, pieces, hl⟩ := hr.layout
  refine ⟨_, hread', ?_, ?_, fun change hc => ?_, fun i d d' hd hd' h => ?_,
    fun i p p' hp hp' h => ?_, hr.parent, hr.root_eq.1, hr.root_eq.2⟩
  · have hkeys := congrArg (List.map fun d : DependencyDeclaration =>
      (d.package, d.origin, d.tag?)) hf.dependencies
    rw [List.map_map, List.map_map] at hkeys
    exact hkeys
  · have hkeys := congrArg (List.map fun p : PropertyDeclaration => (p.scope, p.name))
      hf.properties
    rw [List.map_map, List.map_map] at hkeys
    exact hkeys
  · have hchange := change?_of_mem hread happly hc
    obtain ⟨edits, ha⟩ := hr.applied
    obtain ⟨span, hs, -⟩ := ha.renewal_eq hchange
    exact hf.textOf? hchange (hs ▸ rfl)
  · have hsaid := congrArg DependencyDeclaration.declared (eq_of_map_eq hf.dependencies hd hd')
    have hmem := mem_declaring_dependencies.mp (List.mem_of_getElem? hd)
    rcases h with hnone | ⟨e, he, hpackage, horigin⟩
    · exact hsaid.trans (newText_of_change?_none hl hmem (change?_eq_none hnone))
    · exact hsaid.trans (newText_of_later_dependency hl hd he hpackage horigin)
  · have hsaid := congrArg PropertyDeclaration.value (eq_of_map_eq hf.properties hp hp')
    rcases h with hnone | ⟨q, hq, hscope, hname⟩
    · have hc := change?_eq_none hnone
      rw [Patch.change?_property] at hc
      exact hsaid.trans (newText_of_property?_none hl (List.mem_of_getElem? hp) hc)
    · exact hsaid.trans (newText_of_later_property hl hp hq hscope hname)

end Pom

/-! ## Reading what a patch makes of a text -/

/-- **A document to which a patch has been applied can be read, and declares what the document
declared but for the new texts of the patch**, provided that the texts it replaces hold no mark of
XML. A text that cannot be read is only accepted with the empty patch, which leaves it as it is. -/
theorem applyPatch_reads_patched {text out : String} {patch : Patch}
    (hw : ∀ change ∈ patch.changes, IsWritable change.2)
    (happly : applyPatch text patch = .ok out) :
    (∀ reason, Pom.read text = .error reason → patch.isEmpty = true ∧ out = text) ∧
      ∀ pom, Pom.read text = .ok pom → pom.ReplacesPlain patch →
        ∃ pom', Pom.read out = .ok pom' ∧ pom.Patched text patch pom' := by
  refine ⟨fun reason hreason => ?_, fun pom hread hp => Pom.exists_patched hread hw hp happly⟩
  unfold applyPatch at happly
  by_cases hempty : patch.isEmpty = true
  · rw [if_pos hempty] at happly
    exact ⟨hempty, (Except.ok.inj happly).symm⟩
  · rw [if_neg hempty, hreason] at happly
    cases happly

/-- New versions, one of them a range with a bracket and a mark of XML, are read again. -/
theorem applyPatch_reads_two_versions :
    ∃ pom out pom', Pom.read (String.join (twoDependencies "1" "1.0")) = .ok pom ∧
      applyPatch (String.join (twoDependencies "1" "1.0"))
        (newVersions (newVersion "c" "[2.0,3)") (newVersion "b" "<1.5&")) = .ok out ∧
      Pom.read out = .ok pom' ∧
      pom.Patched (String.join (twoDependencies "1" "1.0"))
        (newVersions (newVersion "c" "[2.0,3)") (newVersion "b" "<1.5&")) pom' := by
  obtain ⟨pom, hread, h⟩ := Pom.exists_of_any (twoDependencies "1" "1.0") (fun pom =>
    pom.ReplacesPlain (newVersions (newVersion "c" "[2.0,3)") (newVersion "b" "<1.5&")) ∧
      ∀ change ∈ (newVersions (newVersion "c" "[2.0,3)") (newVersion "b" "<1.5&")).changes,
        (pom.spanOf? change.1).join.isSome = true)
    (by decide +kernel)
  obtain ⟨hplain, hspans⟩ := of_decide_eq_true h
  have hnd : ((newVersions (newVersion "c" "[2.0,3)") (newVersion "b" "<1.5&")).changes.map
      Prod.fst).Nodup := by decide
  obtain ⟨out, happly⟩ := (Pom.exists_applyPatch_iff_canEdit hread hnd).mpr fun change hc => by
    obtain ⟨span, hs⟩ := Option.isSome_iff_exists.mp (hspans change hc)
    exact ⟨span, Option.join_eq_some_iff.mp hs⟩
  obtain ⟨pom', hread', hpatched⟩ :=
    (applyPatch_reads_patched (by decide +kernel) happly).2 pom hread hplain
  exact ⟨pom, out, pom', hread, happly, hread', hpatched⟩

/-- A text and a literal section behind it are one text, of which only what is written first is
replaced: the new version is read with the literal section behind it. -/
theorem applyPatch_keeps_literal_section :
    ∃ pom pom', Pom.read (String.join (oneDependency "" "&amp;<![CDATA[amp;]]>")) = .ok pom ∧
      (∀ change ∈ (Patch.empty.override (newVersion "b" "2.0")).changes, IsWritable change.2) ∧
      applyPatch (String.join (oneDependency "" "&amp;<![CDATA[amp;]]>"))
          (Patch.empty.override (newVersion "b" "2.0")) =
        .ok (String.join (oneDependency "" "2.0<![CDATA[amp;]]>")) ∧
      Pom.read (String.join (oneDependency "" "2.0<![CDATA[amp;]]>")) = .ok pom' ∧
      pom'.textOf? (.dependency (.ofCoordinates "g" "b") .direct) = some "2.0amp;" := by
  obtain ⟨pom, hread, h⟩ := Pom.exists_of_any (oneDependency "" "&amp;<![CDATA[amp;]]>")
    (fun pom => (pom.spanOf? (.dependency (.ofCoordinates "g" "b") .direct)).join.any fun span =>
      Edit.splice 0 [⟨span, escapeText "2.0", .dependency (.ofCoordinates "g" "b") .direct⟩]
          ((oneDependency "" "&amp;<![CDATA[amp;]]>").flatMap String.toList) =
        (oneDependency "" "2.0<![CDATA[amp;]]>").flatMap String.toList)
    (by decide +kernel)
  obtain ⟨span, hs, hsplice⟩ := (Option.any_eq_true _ _).mp h
  obtain ⟨pom', hread', hsaid⟩ := Pom.exists_of_any (oneDependency "" "2.0<![CDATA[amp;]]>")
    (fun pom => pom.textOf? (.dependency (.ofCoordinates "g" "b") .direct) = some "2.0amp;")
    (by decide +kernel)
  refine ⟨pom, pom', hread, by decide +kernel, ?_, hread', of_decide_eq_true hsaid⟩
  rw [applyPatch_of_single hread rfl (Option.join_eq_some_iff.mp hs), String.toList_join]
  show Except.ok (String.ofList (Edit.splice 0 [⟨span, escapeText "2.0",
    .dependency (.ofCoordinates "g" "b") .direct⟩] _)) = _
  rw [of_decide_eq_true hsplice, ← String.toList_join, String.ofList_toList]

end MavenUpgrade

import Mathlib
import MavenUpgrade.Proofs.Manifest.Reading
import MavenUpgrade.Proofs.Pom.Element

/-!
# Projects with new texts

The declarations of a project with new texts are those of the project, in the same order, each with
the new text if there is one (`declarations_rewrite`, `allProperties_rewrite`). The coordinates of
the project and of its parent stay, except for the version that is taken from the parent.
-/

namespace MavenUpgrade

open Xml (Node Renewal)

/-- What is said of a text that may be edited, under new texts. -/
def Xml.Renewal.apply (new : Renewal) (span? : Option Span) (text : String) : String :=
  ((span?.bind fun span => new span.start).map String.ofList).getD text

namespace DependencyDeclaration

/-- A declaration without the place of its text. -/
def bare (d : DependencyDeclaration) : DependencyDeclaration :=
  { d with span? := none }

/-- A declaration under new texts, without the place of its text. -/
def renew (new : Renewal) (shift : Nat → Nat) (d : DependencyDeclaration) :
    DependencyDeclaration :=
  { d with
    declared := new.apply d.span? d.declared
    span? := none
    position := shift d.position }

end DependencyDeclaration

namespace PropertyDeclaration

/-- A property without the place of its value. -/
def bare (p : PropertyDeclaration) : PropertyDeclaration :=
  { p with span? := none }

/-- A property under new texts, without the place of its value. -/
def renew (new : Renewal) (p : PropertyDeclaration) : PropertyDeclaration :=
  { p with value := new.apply p.span? p.value, span? := none }

end PropertyDeclaration

namespace Pom

open DependencyDeclaration (bare)

variable {new : Renewal} {shift : Nat → Nat}

/-- A version with a new text is declared as this text. -/
theorem dependencyOf?_rewrite {parent version : Node} (h : parent.Accepts new)
    (hc : version ∈ parent.children) (package : Package) (origin : Origin) (tag? : Option String)
    (position : Nat) :
    (dependencyOf? package origin (version.rewrite new shift) tag? (shift position)).map bare =
      (dependencyOf? package origin version tag? position).map (.renew new shift) := by
  rw [dependencyOf?, dependencyOf?, h.textContent_rewrite hc, h.renewed_isEmpty hc]
  split <;> rfl

/-- The dependencies of a list. -/
theorem dependenciesIn_rewrite {list : Node} (h : list.Accepts new) (origin : Origin) :
    (dependenciesIn origin (list.rewrite new shift)).map bare =
      (dependenciesIn origin list).map (.renew new shift) := by
  rw [dependenciesIn, dependenciesIn, Node.childrenNamed_rewrite, List.filterMap_map,
    List.map_filterMap, List.map_filterMap]
  refine List.filterMap_congr fun node hnode => ?_
  obtain ⟨hmem, hname⟩ := Node.mem_childrenNamed hnode
  have hn := h.child hmem
  -- of a dependency only the version may be edited
  have htext {name : String} (hne : name ≠ "version") :
      (node.rewrite new shift).childText? name = node.childText? name :=
    hn.childText?_rewrite hname (by decide) fun he => absurd he hne
  rw [Function.comp_apply, htext (by decide), htext (by decide), htext (by decide),
    Node.start_rewrite hname, Node.child?_rewrite]
  cases node.childText? "groupId" with
  | none => rfl
  | some group =>
    cases node.childText? "artifactId" with
    | none => rfl
    | some artifact =>
      cases hv : node.child? "version" with
      | none => rfl
      | some version =>
        simp only [Option.map_some, Option.bind_eq_bind, Option.bind_some]
        exact dependencyOf?_rewrite hn (Node.mem_children_of_child? hv) _ _ _ _

theorem pluginsIn_rewrite (node : Node) :
    pluginsIn (node.rewrite new shift) = (pluginsIn node).map (Node.rewrite new shift) := by
  rw [pluginsIn, pluginsIn, Node.child?_rewrite]
  cases node.child? "build" with
  | none => rfl
  | some build =>
    show (((build.rewrite new shift).child? "plugins").toList ++
      (((build.rewrite new shift).child? "pluginManagement").bind
        (·.child? "plugins")).toList).flatMap (·.childrenNamed "plugin") = _
    rw [Node.child?_child?_rewrite, Node.child?_rewrite, Option.toList_map, Option.toList_map, ← List.map_append,
      List.flatMap_map, List.map_flatMap]
    exact List.flatMap_congr fun list _ => Node.childrenNamed_rewrite list _

/-- The plugins of a project or of a profile stand below it. -/
theorem leads_of_mem_pluginsIn {node plugin : Node} (h : plugin ∈ pluginsIn node) :
    plugin.name? = some "plugin" ∧
      ((∃ build list, node.Leads [node, build, list] plugin ∧ build.name? = some "build") ∨
        ∃ build managed list, node.Leads [node, build, managed, list] plugin ∧
          build.name? = some "build") := by
  rw [pluginsIn] at h
  split at h
  · next build hbuild =>
    have hb := Node.mem_children_of_child? hbuild
    obtain ⟨list, hlist, hp⟩ := List.mem_flatMap.mp h
    obtain ⟨hmem, hname⟩ := Node.mem_childrenNamed hp
    refine ⟨hname, ?_⟩
    rcases List.mem_append.mp hlist with hl | hl
    · have hl' := Node.mem_children_of_child? (Option.mem_toList.mp hl)
      exact Or.inl ⟨build, list, .down hb (.down hl' (.down hmem (.here plugin))),
        Node.name?_of_child? hbuild⟩
    · obtain ⟨managed, hm, hl⟩ := Option.bind_eq_some_iff.mp (Option.mem_toList.mp hl)
      exact Or.inr ⟨build, managed, list, .down hb (.down (Node.mem_children_of_child? hm)
        (.down (Node.mem_children_of_child? hl) (.down hmem (.here plugin)))),
          Node.name?_of_child? hbuild⟩
  · cases h

/-- The dependencies of a plugin. -/
theorem pluginDependencies_rewrite {plugin : Node} (h : plugin.Accepts new)
    (hname : plugin.name? = some "plugin") (origin : ProfileSection → Origin) :
    (pluginDependencies origin (plugin.rewrite new shift)).map bare =
      (pluginDependencies origin plugin).map (.renew new shift) := by
  have htext (name : String) :
      (plugin.rewrite new shift).childText? name = plugin.childText? name :=
    h.childText?_rewrite hname (by decide) fun _ => ⟨by decide, by decide⟩
  rw [pluginDependencies, pluginDependencies, htext, htext, Node.child?_rewrite]
  cases plugin.childText? "artifactId" with
  | none => rfl
  | some artifact =>
    cases hd : plugin.child? "dependencies" with
    | none => rfl
    | some list => exact dependenciesIn_rewrite (h.child (Node.mem_children_of_child? hd)) _

/-- The dependencies of lists that may be missing. -/
theorem flatMap_dependenciesIn_rewrite {list? : Option Node}
    (h : ∀ list ∈ list?, list.Accepts new) (origin : Origin) :
    ((list?.map (Node.rewrite new shift)).toList.flatMap (dependenciesIn origin)).map bare =
      (list?.toList.flatMap (dependenciesIn origin)).map (.renew new shift) := by
  cases list? with
  | none => rfl
  | some list =>
    rw [Option.map_some, Option.toList_some, Option.toList_some, List.flatMap_singleton,
      List.flatMap_singleton]
    exact dependenciesIn_rewrite (h list rfl) origin

/-- The dependencies of the project or of a profile. -/
theorem sectionDependencies_rewrite {node : Node} (h : node.Accepts new)
    (origin : ProfileSection → Origin) :
    (sectionDependencies origin (node.rewrite new shift)).map bare =
      (sectionDependencies origin node).map (.renew new shift) := by
  have hplugins : ((pluginsIn node).flatMap
      (pluginDependencies origin ∘ Node.rewrite new shift)).map bare =
        ((pluginsIn node).flatMap (pluginDependencies origin)).map (.renew new shift) := by
    rw [List.map_flatMap, List.map_flatMap]
    refine List.flatMap_congr fun plugin hp => ?_
    obtain ⟨hname, hleads⟩ := leads_of_mem_pluginsIn hp
    have haccepts : plugin.Accepts new := by
      rcases hleads with ⟨_, _, hl, -⟩ | ⟨_, _, _, hl, -⟩
      · exact h.of_leads hl
      · exact h.of_leads hl
    exact pluginDependencies_rewrite haccepts hname origin
  rw [sectionDependencies, sectionDependencies]
  simp only [List.map_append]
  rw [Node.child?_child?_rewrite, Node.child?_rewrite, pluginsIn_rewrite, List.flatMap_map]
  congr 1
  · congr 1
    · refine flatMap_dependenciesIn_rewrite (fun list hl => ?_) _
      exact h.child (Node.mem_children_of_child? hl)
    · refine flatMap_dependenciesIn_rewrite (fun list hl => ?_) _
      obtain ⟨managed, hm, hl⟩ := Option.bind_eq_some_iff.mp hl
      exact (h.child (Node.mem_children_of_child? hm)).child (Node.mem_children_of_child? hl)

/-- The properties of the project or of a profile. -/
theorem propertiesIn_rewrite {node : Node} (h : node.Accepts new) (scope : Scope) :
    (propertiesIn scope (node.rewrite new shift)).map PropertyDeclaration.bare =
      (propertiesIn scope node).map (.renew new) := by
  rw [propertiesIn, propertiesIn, Node.child?_rewrite]
  cases hl : node.child? "properties" with
  | none => rfl
  | some list =>
    have hlist := h.child (Node.mem_children_of_child? hl)
    show ((list.rewrite new shift).children.filterMap _).map _ = (list.children.filterMap _).map _
    rw [Node.children_rewrite, List.filterMap_map, List.map_filterMap, List.map_filterMap]
    refine List.filterMap_congr fun property hp => ?_
    rw [Function.comp_apply, Node.name?_rewrite, hlist.textContent_rewrite hp]
    cases property.name? <;> rfl

/-- The profiles of a project. -/
theorem profilesIn_rewrite {project : Node} (h : project.Accepts new) :
    profilesIn (project.rewrite new shift) =
      (profilesIn project).map fun (id, node) => (id, node.rewrite new shift) := by
  rw [profilesIn, profilesIn, Node.child?_rewrite]
  cases hl : project.child? "profiles" with
  | none => rfl
  | some list =>
    have hlist := h.child (Node.mem_children_of_child? hl)
    rw [Option.map_some, Option.toList_some, Option.toList_some, List.flatMap_singleton,
      List.flatMap_singleton, Node.childrenNamed_rewrite, List.filterMap_map, List.map_filterMap]
    refine List.filterMap_congr fun profile hp => ?_
    obtain ⟨hmem, hname⟩ := Node.mem_childrenNamed hp
    rw [Function.comp_apply, (hlist.child hmem).childText?_rewrite hname (by decide)
      fun _ => ⟨by decide, by decide⟩]
    cases profile.childText? "id" <;> rfl

/-- A profile stands below the project. -/
theorem leads_of_mem_profilesIn {project node : Node} {id : String}
    (h : (id, node) ∈ profilesIn project) :
    ∃ list, project.Leads [project, list] node ∧ list.name? = some "profiles" ∧
      node.childText? "id" = some id := by
  rw [profilesIn] at h
  obtain ⟨list, hl, hm⟩ := List.mem_flatMap.mp h
  obtain ⟨profile, hp, he⟩ := List.mem_filterMap.mp hm
  obtain ⟨id', hid, he⟩ := Option.map_eq_some_iff.mp he
  obtain ⟨rfl, rfl⟩ := Prod.mk.inj he
  have hl' := Option.mem_toList.mp hl
  exact ⟨list, .down (Node.mem_children_of_child? hl') (.down (Node.mem_childrenNamed hp).1
    (.here profile)), Node.name?_of_child? hl', hid⟩

/-- What is read of each profile of a project with new texts. -/
theorem flatMap_profilesIn_rewrite {α : Type} {project : Node} (h : project.Accepts new)
    {read : String × Node → List α} {forget renew : α → α}
    (hread : ∀ id node, node.Accepts new →
      (read (id, node.rewrite new shift)).map forget = (read (id, node)).map renew) :
    ((profilesIn (project.rewrite new shift)).flatMap read).map forget =
      ((profilesIn project).flatMap read).map renew := by
  rw [profilesIn_rewrite h, List.flatMap_map, List.map_flatMap, List.map_flatMap]
  refine List.flatMap_congr fun ⟨id, node⟩ hp => ?_
  obtain ⟨list, hl, -⟩ := leads_of_mem_profilesIn hp
  exact hread id node (h.of_leads hl)

/-- **The properties of a project with new texts are those of the project with the new texts.** -/
theorem allProperties_rewrite {project : Node} (h : project.Accepts new) :
    (allProperties (project.rewrite new shift)).map PropertyDeclaration.bare =
      (allProperties project).map (.renew new) := by
  rw [allProperties, allProperties, List.map_append, List.map_append, propertiesIn_rewrite h,
    flatMap_profilesIn_rewrite h fun id node hn => propertiesIn_rewrite hn (.profile id)]

/-! ## The parent and the coordinates -/

/-- The version that a project takes from its parent, under new texts. -/
def parentVersion (new : Renewal) (project : Node) (version : String) : String :=
  ((parentDependency? project).map fun d => new.apply d.span? d.declared).getD version

/-- The version of the parent with new texts. -/
theorem childText?_version_rewrite {parent : Node} (h : parent.Accepts new) :
    (parent.rewrite new shift).childText? "version" =
      ((parent.child? "version").map (Node.renewed new)).filter (!·.isEmpty) := by
  rw [Node.childText?, Node.child?_rewrite]
  cases hv : parent.child? "version" with
  | none => rfl
  | some version =>
    show Option.filter _ (some ((version.rewrite new shift).textContent)) = _
    rw [h.textContent_rewrite (Node.mem_children_of_child? hv)]
    rfl

/-- What is read of the reference to the parent. -/
theorem parent_rewrite (shift : Nat → Nat) {project : Node} (h : project.Accepts new) :
    parentOf? (project.rewrite new shift) =
        (parentOf? project).map (fun c =>
          { c with version := parentVersion new project c.version }) ∧
      (parentDependency? (project.rewrite new shift)).map bare =
        (parentDependency? project).map (.renew new shift) := by
  have hparent : (project.rewrite new shift).child? "parent" =
      (project.child? "parent").map (Node.rewrite new shift) := Node.child?_rewrite project _
  unfold parentVersion parentDependency? parentOf?
  rw [hparent]
  cases hp : project.child? "parent" with
  | none => exact ⟨rfl, rfl⟩
  | some parent =>
    have hname := Node.name?_of_child? hp
    have haccepts := h.child (Node.mem_children_of_child? hp)
    have htext {name : String} (hne : name ≠ "version") :
        (parent.rewrite new shift).childText? name = parent.childText? name :=
      haccepts.childText?_rewrite hname (by decide) fun he => absurd he hne
    have hgroup : (parent.rewrite new shift).childText? "groupId" =
        parent.childText? "groupId" := htext (by decide)
    have hartifact : (parent.rewrite new shift).childText? "artifactId" =
        parent.childText? "artifactId" := htext (by decide)
    have hversion : parent.childText? "version" =
        ((parent.child? "version").map Node.textContent).filter (!·.isEmpty) := rfl
    simp only [Option.map_some, Option.bind_eq_bind, Option.bind_some, hgroup, hartifact,
      childText?_version_rewrite haccepts, hversion, Node.child?_rewrite,
      Node.start_rewrite hname]
    cases parent.childText? "groupId" with
    | none => exact ⟨rfl, rfl⟩
    | some group =>
      cases parent.childText? "artifactId" with
      | none => exact ⟨rfl, rfl⟩
      | some artifact =>
        cases hv : parent.child? "version" with
        | none => exact ⟨rfl, rfl⟩
        | some version =>
          have hmem := Node.mem_children_of_child? hv
          have hempty := haccepts.renewed_isEmpty hmem
          simp only [Option.map_some, Option.bind_some, Option.filter_some, hempty]
          cases he : version.textContent.isEmpty with
          | true => exact ⟨rfl, rfl⟩
          | false =>
            simp only [Bool.not_false, ↓reduceIte, Option.pure_def, Option.bind_some,
              Option.map_some]
            refine ⟨?_, dependencyOf?_rewrite haccepts hmem _ _ _ _⟩
            have hd : dependencyOf? (.ofCoordinates group artifact) .parent version none
                parent.start = some ⟨.ofCoordinates group artifact, .parent, version.textContent,
                  none, version.plainSpan?, parent.start⟩ := by
              rw [dependencyOf?]
              simp only [he]
              rfl
            rw [hd]
            rfl

/-- A project has coordinates when it has all three, of which the parent may give two. -/
theorem rootOf_eq_ok_iff {project : Node} {root : Coordinates} :
    rootOf project = .ok root ↔
      (project.childText? "groupId").or ((parentOf? project).map (·.groupId)) =
          some root.groupId ∧
        project.childText? "artifactId" = some root.artifactId ∧
        (project.childText? "version").or ((parentOf? project).map (·.version)) =
          some root.version := by
  unfold rootOf
  dsimp only
  cases (project.childText? "groupId").or ((parentOf? project).map (·.groupId)) with
  | none =>
    constructor
    · intro h
      cases h
    · rintro ⟨hg, -⟩
      cases hg
  | some group =>
    cases project.childText? "artifactId" with
    | none =>
      constructor
      · intro h
        cases h
      · rintro ⟨-, ha, -⟩
        cases ha
    | some artifact =>
      cases (project.childText? "version").or ((parentOf? project).map (·.version)) with
      | none =>
        constructor
        · intro h
          cases h
        · rintro ⟨-, -, hv⟩
          cases hv
      | some version =>
        constructor
        · intro h
          have h' : Except.ok (Coordinates.mk group artifact version) = .ok root := h
          obtain rfl := Except.ok.inj h'
          exact ⟨rfl, rfl, rfl⟩
        · rintro ⟨hg, ha, hv⟩
          rw [Option.some.inj hg, Option.some.inj ha, Option.some.inj hv]
          rfl

/-- A project with new texts has the coordinates of the project, but for a version that it takes
from its parent. -/
theorem rootOf_rewrite (shift : Nat → Nat) {project : Node} (h : project.Accepts new)
    (hname : project.name? = some "project") {root : Coordinates}
    (hroot : rootOf project = .ok root) :
    ∃ root', rootOf (project.rewrite new shift) = .ok root' ∧ root'.groupId = root.groupId ∧
      root'.artifactId = root.artifactId ∧
      (parentOf? (project.rewrite new shift) = parentOf? project → root' = root) := by
  -- what the project itself says is not edited
  have htext (name : String) :
      (project.rewrite new shift).childText? name = project.childText? name :=
    h.childText?_rewrite hname (by decide) fun _ => ⟨by decide, by decide⟩
  have hparent : parentOf? (project.rewrite new shift) = (parentOf? project).map
      (fun c => { c with version := parentVersion new project c.version }) :=
    (parent_rewrite shift h).1
  obtain ⟨hg, ha, hv⟩ := rootOf_eq_ok_iff.mp hroot
  have hg' : (project.childText? "groupId").or
      ((parentOf? (project.rewrite new shift)).map (·.groupId)) = some root.groupId := by
    rw [hparent, Option.map_map]
    exact hg
  have hv' : ∃ version, (project.childText? "version").or
      ((parentOf? (project.rewrite new shift)).map (·.version)) = some version := by
    rw [hparent, Option.map_map]
    cases hc : project.childText? "version" with
    | some version => exact ⟨version, rfl⟩
    | none =>
      rw [hc, Option.none_or] at hv
      obtain ⟨c, hc', -⟩ := Option.map_eq_some_iff.mp hv
      rw [hc']
      exact ⟨_, rfl⟩
  obtain ⟨version, hv'⟩ := hv'
  refine ⟨⟨root.groupId, root.artifactId, version⟩, rootOf_eq_ok_iff.mpr ?_, rfl, rfl, fun he => ?_⟩
  · rw [htext, htext, htext]
    exact ⟨hg', ha, hv'⟩
  · rw [he, hv] at hv'
    rw [← Option.some.inj hv']

/-! ## The dependencies -/

/-- **The dependencies of a project with new texts are those of the project with the new texts.** -/
theorem declarations_rewrite {project : Node} (h : project.Accepts new) :
    (declarations (project.rewrite new shift)).map bare =
      (declarations project).map (.renew new shift) := by
  have hparent : (parentDependency? (project.rewrite new shift)).toList.map bare =
      (parentDependency? project).toList.map (.renew new shift) := by
    rw [← Option.toList_map, ← Option.toList_map, (parent_rewrite shift h).2]
  rw [declarations, declarations]
  simp only [List.map_append]
  rw [hparent, sectionDependencies_rewrite h,
    flatMap_profilesIn_rewrite h fun id node hn => sectionDependencies_rewrite hn (.profile id)]

end Pom

end MavenUpgrade

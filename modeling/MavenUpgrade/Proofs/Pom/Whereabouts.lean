import Mathlib
import MavenUpgrade.Proofs.Pom.Renewed

/-!
# Where declarations stand

A dependency stands below the project, and the nodes above it tell its origin; likewise for a
property and its scope. So declarations whose texts begin at the same place are one
(`dependency_unique`, `property_unique`), and no dependency shares its text with a property.
-/

namespace MavenUpgrade.Pom

open Xml (Node)
open Edit (middleOf)

/-! ## Declaring elements -/

/-- The package that an element with a group and an artifact names. -/
def packageOf (node : Node) : Package :=
  .ofCoordinates ((node.childText? "groupId").getD "") ((node.childText? "artifactId").getD "")

/-- A dependency is declared by an element, of which the given child says the version. -/
structure DeclaredBy (node version : Node) (d : DependencyDeclaration) : Prop where
  kind : node.name? = some "dependency" ∨ node.name? = some "parent"
  child : version ∈ node.children
  name : version.name? = some "version"
  package : d.package = packageOf node
  declared : d.declared = version.textContent
  span : d.span? = version.plainSpan?
  position : d.position = node.start

/-- A dependency is what its version element and the rest of its element say. -/
theorem eq_of_dependencyOf? {package : Package} {origin : Origin} {version : Node}
    {tag? : Option String} {position : Nat} {d : DependencyDeclaration}
    (h : dependencyOf? package origin version tag? position = some d) :
    d = ⟨package, origin, version.textContent, tag?, version.plainSpan?, position⟩ := by
  rw [dependencyOf?] at h
  split at h
  · cases h
  · exact (Option.some.inj h).symm

theorem declaredBy_of_dependencyOf? {node version : Node} {d : DependencyDeclaration}
    {package : Package} {origin : Origin} {tag? : Option String}
    (hkind : node.name? = some "dependency" ∨ node.name? = some "parent")
    (hversion : node.child? "version" = some version) (hpackage : package = packageOf node)
    (h : dependencyOf? package origin version tag? node.start = some d) :
    DeclaredBy node version d ∧ d.origin = origin := by
  obtain rfl := eq_of_dependencyOf? h
  exact ⟨⟨hkind, Node.mem_children_of_child? hversion, Node.name?_of_child? hversion, hpackage,
    rfl, rfl, rfl⟩, rfl⟩

/-- A dependency in a list is declared by a child of the list. -/
theorem declaredBy_of_mem_dependenciesIn {origin : Origin} {list : Node}
    {d : DependencyDeclaration} (h : d ∈ dependenciesIn origin list) :
    ∃ node ∈ list.children, ∃ version, DeclaredBy node version d ∧ d.origin = origin := by
  obtain ⟨node, hnode, hd⟩ := List.mem_filterMap.mp h
  obtain ⟨hmem, hname⟩ := Node.mem_childrenNamed hnode
  obtain ⟨group, hg, hd⟩ := Option.bind_eq_some_iff.mp hd
  obtain ⟨artifact, ha, hd⟩ := Option.bind_eq_some_iff.mp hd
  obtain ⟨version, hv, hd⟩ := Option.bind_eq_some_iff.mp hd
  refine ⟨node, hmem, version, declaredBy_of_dependencyOf? (Or.inl hname) hv ?_ hd⟩
  rw [packageOf, hg, ha]
  rfl

/-! ## The nodes above a dependency -/

/-- The name of a build plugin. -/
def pluginName (plugin : Node) : String :=
  (plugin.childText? "groupId").getD defaultPluginGroup ++ ":" ++
    (plugin.childText? "artifactId").getD ""

/-- The section that the nodes between the project or a profile and a dependency make. -/
def sectionOf : List Node → ProfileSection
  | [_, _] => .management
  | [_, _, plugin, _] => .plugin (pluginName plugin)
  | [_, _, _, plugin, _] => .plugin (pluginName plugin)
  | _ => .direct

/-- The origin that the nodes between the project and a dependency make. -/
def originOf : List Node → Origin
  | [] => .parent
  | [list] => projectOrigin (sectionOf [list])
  | first :: second :: between =>
    if first.name? = some "profiles" then
      .profile ((second.childText? "id").getD "") (sectionOf between)
    else projectOrigin (sectionOf (first :: second :: between))

/-- The dependencies of a plugin stand in its list of dependencies. -/
theorem exists_of_mem_pluginDependencies {origin : ProfileSection → Origin} {plugin : Node}
    {d : DependencyDeclaration} (h : d ∈ pluginDependencies origin plugin) :
    ∃ list ∈ plugin.children, ∃ node ∈ list.children, ∃ version, DeclaredBy node version d ∧
      d.origin = origin (.plugin (pluginName plugin)) := by
  rw [pluginDependencies] at h
  split at h
  · next artifact list ha hl =>
    obtain ⟨node, hmem, version, hd, ho⟩ := declaredBy_of_mem_dependenciesIn h
    refine ⟨list, Node.mem_children_of_child? hl, node, hmem, version, hd, ?_⟩
    rw [ho, pluginName, ha]
    rfl
  · cases h

/-- The dependencies of the project or of a profile stand below it, and not in profiles. -/
theorem exists_of_mem_sectionDependencies {origin : ProfileSection → Origin} {top : Node}
    {d : DependencyDeclaration} (h : d ∈ sectionDependencies origin top) :
    ∃ first between node version, top.Leads (top :: first :: between) node ∧
      DeclaredBy node version d ∧ d.origin = origin (sectionOf (first :: between)) ∧
        first.name? ≠ some "profiles" := by
  rw [sectionDependencies, List.mem_append, List.mem_append] at h
  rcases h with (h | h) | h
  · obtain ⟨list, hl, hd⟩ := List.mem_flatMap.mp h
    have hl' := Option.mem_toList.mp hl
    obtain ⟨node, hmem, version, hd, ho⟩ := declaredBy_of_mem_dependenciesIn hd
    refine ⟨list, [], node, version, .down (Node.mem_children_of_child? hl')
      (.down hmem (.here node)), hd, ho, ?_⟩
    rw [Node.name?_of_child? hl']
    decide
  · obtain ⟨list, hl, hd⟩ := List.mem_flatMap.mp h
    obtain ⟨managed, hm, hl⟩ := Option.bind_eq_some_iff.mp (Option.mem_toList.mp hl)
    obtain ⟨node, hmem, version, hd, ho⟩ := declaredBy_of_mem_dependenciesIn hd
    refine ⟨managed, [list], node, version, .down (Node.mem_children_of_child? hm)
      (.down (Node.mem_children_of_child? hl) (.down hmem (.here node))), hd, ho, ?_⟩
    rw [Node.name?_of_child? hm]
    decide
  · -- a plugin stands in a list of its own or in one of the managed plugins
    obtain ⟨plugin, hp, hd⟩ := List.mem_flatMap.mp h
    obtain ⟨list, hl, node, hmem, version, hd, ho⟩ := exists_of_mem_pluginDependencies hd
    rcases (leads_of_mem_pluginsIn hp).2 with ⟨build, plugins, hleads, hb⟩ |
      ⟨build, managed, plugins, hleads, hb⟩
    · refine ⟨build, [plugins, plugin, list], node, version, (hleads.snoc hl).snoc hmem, hd, ho, ?_⟩
      rw [hb]
      decide
    · refine ⟨build, [managed, plugins, plugin, list], node, version,
        (hleads.snoc hl).snoc hmem, hd, ho, ?_⟩
      rw [hb]
      decide

/-- The nodes above a dependency tell its origin. -/
theorem exists_of_mem_declarations {project : Node} {d : DependencyDeclaration}
    (h : d ∈ declarations project) :
    ∃ between node version, project.Leads (project :: between) node ∧ DeclaredBy node version d ∧
      d.origin = originOf between := by
  rw [declarations, List.mem_append, List.mem_append] at h
  rcases h with (h | h) | h
  · have hd := Option.mem_toList.mp h
    obtain ⟨node, hn, hd⟩ := Option.bind_eq_some_iff.mp hd
    obtain ⟨parent, hp, hd⟩ := Option.bind_eq_some_iff.mp hd
    obtain ⟨version, hv, hd⟩ := Option.bind_eq_some_iff.mp hd
    -- the parent that is read is the one that the version is taken from
    have hpackage : Package.ofCoordinates parent.groupId parent.artifactId = packageOf node := by
      obtain ⟨node', hn', hp⟩ := Option.bind_eq_some_iff.mp hp
      obtain ⟨group, hg, hp⟩ := Option.bind_eq_some_iff.mp hp
      obtain ⟨artifact, ha, hp⟩ := Option.bind_eq_some_iff.mp hp
      obtain ⟨text, -, hp⟩ := Option.bind_eq_some_iff.mp hp
      have hp' : some (Coordinates.mk group artifact text) = some parent := hp
      obtain rfl : node = node' := Option.some.inj (hn.symm.trans hn')
      obtain rfl := Option.some.inj hp'
      rw [packageOf, hg, ha]
      rfl
    obtain ⟨hby, ho⟩ :=
      declaredBy_of_dependencyOf? (Or.inr (Node.name?_of_child? hn)) hv hpackage hd
    exact ⟨[], node, version, .down (Node.mem_children_of_child? hn) (.here node), hby, ho⟩
  · obtain ⟨first, between, node, version, hl, hd, ho, hne⟩ := exists_of_mem_sectionDependencies h
    refine ⟨first :: between, node, version, hl, hd, ?_⟩
    rw [ho]
    cases between with
    | nil => rfl
    | cons second between => rw [originOf, if_neg hne]
  · obtain ⟨⟨id, profile⟩, hp, hd⟩ := List.mem_flatMap.mp h
    obtain ⟨list, hleads, hlist, hid⟩ := leads_of_mem_profilesIn hp
    obtain ⟨first, between, node, version, hl, hd, ho, -⟩ := exists_of_mem_sectionDependencies hd
    refine ⟨list :: profile :: first :: between, node, version, hleads.trans hl, hd, ?_⟩
    rw [ho, originOf, if_pos hlist, hid]
    rfl

/-! ## Properties -/

/-- The scope that the nodes between the project and a property make. -/
def scopeOf : List Node → Scope
  | [_, profile, _] => .profile ((profile.childText? "id").getD "")
  | _ => .root

/-- A property is declared by an element of a list of properties. -/
structure PropertyBy (list node : Node) (p : PropertyDeclaration) : Prop where
  kind : list.name? = some "properties"
  child : node ∈ list.children
  name : node.name? = some p.name
  value : p.value = node.textContent
  span : p.span? = node.plainSpan?

theorem propertyBy_of_mem_propertiesIn {scope : Scope} {top : Node} {p : PropertyDeclaration}
    (h : p ∈ propertiesIn scope top) :
    ∃ list ∈ top.children, ∃ node, PropertyBy list node p ∧ p.scope = scope := by
  rw [propertiesIn] at h
  split at h
  · next list hl =>
    obtain ⟨node, hnode, hp⟩ := List.mem_filterMap.mp h
    obtain ⟨name, hname, rfl⟩ := Option.map_eq_some_iff.mp hp
    exact ⟨list, Node.mem_children_of_child? hl, node,
      ⟨Node.name?_of_child? hl, hnode, hname, rfl, rfl⟩, rfl⟩
  · cases h

/-- The nodes above a property tell its scope. -/
theorem exists_of_mem_allProperties {project : Node} {p : PropertyDeclaration}
    (h : p ∈ allProperties project) :
    ∃ between list node, project.Leads (project :: between) list ∧ PropertyBy list node p ∧
      p.scope = scopeOf (between ++ [list]) := by
  rw [allProperties, List.mem_append] at h
  rcases h with h | h
  · obtain ⟨list, hl, node, hby, hs⟩ := propertyBy_of_mem_propertiesIn h
    exact ⟨[], list, node, .down hl (.here list), hby, hs⟩
  · obtain ⟨⟨id, profile⟩, hp, hd⟩ := List.mem_flatMap.mp h
    obtain ⟨profiles, hleads, -, hid⟩ := leads_of_mem_profilesIn hp
    obtain ⟨list, hl, node, hby, hs⟩ := propertyBy_of_mem_propertiesIn hd
    refine ⟨[profiles, profile], list, node, hleads.snoc hl, hby, ?_⟩
    rw [hs]
    show Scope.profile id = .profile ((profile.childText? "id").getD "")
    rw [hid]
    rfl

/-! ## Places in the text -/

section Layout

variable {cs head : List Char} {project : Node} {pieces : List Xml.Piece}

/-- A text whose middle begins where that of a plain element does is the text of this element. -/
theorem owner_unique (hl : Xml.Layout cs project head pieces) {above above' : List Node}
    {element plain : Node} {s : Nat} {source content : List Char} {span : Span}
    (h : project.Leads above element) (h' : project.Leads above' plain)
    (ht : .text s source content ∈ element.children) (hne : Text.trim source ≠ [])
    (hp : plain.plainSpan? = some span) (heq : (middleOf s source).start = span.start) :
    above = above' ∧ element = plain ∧ element.children = [.text s source source] := by
  obtain ⟨s', source', hc, hne', rfl⟩ := Node.plainSpan?_eq_some_iff.mp hp
  have ht' : .text s' source' source' ∈ plain.children := hc ▸ List.mem_singleton_self _
  obtain rfl : s = s' := hl.start_unique ((h.snoc ht).mem_items List.mem_cons_self)
    ((h'.snoc ht').mem_items List.mem_cons_self) hne hne' heq
  obtain ⟨stop, hs⟩ := hl.sound
  obtain ⟨habove, htext⟩ := Node.Leads.unique hs.nodup (h.snoc ht) (h'.snoc ht')
    (Node.begins_text s source content) (Node.begins_text s source' source')
  obtain ⟨rfl, he⟩ := List.append_inj' habove rfl
  obtain rfl := List.singleton_inj.mp he
  obtain ⟨-, rfl, rfl⟩ := Node.text.inj htext
  exact ⟨rfl, rfl, hc⟩

/-- Two plain elements whose texts begin at one place are the same. -/
theorem plain_unique (hl : Xml.Layout cs project head pieces) {above above' : List Node}
    {element element' : Node} {span span' : Span} (h : project.Leads above element)
    (h' : project.Leads above' element') (hp : element.plainSpan? = some span)
    (hp' : element'.plainSpan? = some span') (heq : span.start = span'.start) :
    above = above' ∧ element = element' := by
  obtain ⟨s, source, hc, hne, rfl⟩ := Node.plainSpan?_eq_some_iff.mp hp
  obtain ⟨habove, he, -⟩ :=
    owner_unique hl h h' (hc ▸ List.mem_singleton_self _) hne hp' heq
  exact ⟨habove, he⟩

/-- Dependencies whose texts begin at one place have the same package and origin. -/
theorem dependency_unique (hl : Xml.Layout cs project head pieces) {d d' : DependencyDeclaration}
    {span span' : Span} (hd : d ∈ declarations project) (hd' : d' ∈ declarations project)
    (hs : d.span? = some span) (hs' : d'.span? = some span') (heq : span.start = span'.start) :
    d.package = d'.package ∧ d.origin = d'.origin := by
  obtain ⟨between, node, version, hleads, hby, ho⟩ := exists_of_mem_declarations hd
  obtain ⟨between', node', version', hleads', hby', ho'⟩ := exists_of_mem_declarations hd'
  obtain ⟨habove, -⟩ := plain_unique hl (hleads.snoc hby.child) (hleads'.snoc hby'.child)
    (hby.span ▸ hs) (hby'.span ▸ hs') heq
  obtain ⟨hb, hn⟩ := List.append_inj' habove rfl
  obtain rfl := List.singleton_inj.mp hn
  obtain rfl := (List.cons.inj hb).2
  exact ⟨hby.package.trans hby'.package.symm, ho.trans ho'.symm⟩

/-- Properties whose values begin at one place have the same scope and name. -/
theorem property_unique (hl : Xml.Layout cs project head pieces) {p p' : PropertyDeclaration}
    {span span' : Span} (hp : p ∈ allProperties project) (hp' : p' ∈ allProperties project)
    (hs : p.span? = some span) (hs' : p'.span? = some span') (heq : span.start = span'.start) :
    p.scope = p'.scope ∧ p.name = p'.name := by
  obtain ⟨between, list, node, hleads, hby, hscope⟩ := exists_of_mem_allProperties hp
  obtain ⟨between', list', node', hleads', hby', hscope'⟩ := exists_of_mem_allProperties hp'
  obtain ⟨habove, rfl⟩ := plain_unique hl (hleads.snoc hby.child) (hleads'.snoc hby'.child)
    (hby.span ▸ hs) (hby'.span ▸ hs') heq
  have hb : between ++ [list] = between' ++ [list'] := (List.cons.inj habove).2
  refine ⟨?_, Option.some.inj (hby.name.symm.trans hby'.name)⟩
  rw [hscope, hscope', hb]

/-- The text of a dependency is not that of a property. -/
theorem dependency_ne_property (hl : Xml.Layout cs project head pieces)
    {d : DependencyDeclaration} {p : PropertyDeclaration} {span span' : Span}
    (hd : d ∈ declarations project) (hp : p ∈ allProperties project) (hs : d.span? = some span)
    (hs' : p.span? = some span') : span.start ≠ span'.start := by
  intro heq
  obtain ⟨between, node, version, hleads, hby, -⟩ := exists_of_mem_declarations hd
  obtain ⟨between', list, property, hleads', hby', -⟩ := exists_of_mem_allProperties hp
  obtain ⟨habove, -⟩ := plain_unique hl (hleads.snoc hby.child) (hleads'.snoc hby'.child)
    (hby.span ▸ hs) (hby'.span ▸ hs') heq
  obtain ⟨-, hn⟩ := List.append_inj' habove rfl
  obtain rfl := List.singleton_inj.mp hn
  have hkind := hby.kind
  rw [hby'.kind] at hkind
  rcases hkind with h | h <;> exact absurd h (by decide)

end Layout

end MavenUpgrade.Pom

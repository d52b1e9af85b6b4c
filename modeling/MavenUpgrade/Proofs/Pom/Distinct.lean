import Mathlib
import MavenUpgrade.Proofs.Pom.Whereabouts

/-!
# Declarations with texts of their own

The sections of a project, its profiles and its plugins are different elements, and so are the
declarations in them: no two declarations have a text at the same place, whether or not they are
about the same dependency or property (`Pom.pairwise_declarations`, `Pom.pairwise_allProperties`).
-/

namespace MavenUpgrade

open Edit (middleOf)
open Text (trim)
open Xml (Item Layout Node Piece itemsOf)

/-! ## Nodes that share nothing -/

namespace Xml.Node

/-- The offsets at which the items of a node begin. -/
def starts (node : Node) : List Nat :=
  node.items.map Item.start

/-- No item of one node begins where one of the other does. -/
def Apart (m n : Node) : Prop :=
  ∀ s ∈ m.starts, s ∉ n.starts

theorem Apart.symm {m n : Node} (h : Apart m n) : Apart n m :=
  fun s hn hm => h s hm hn

theorem mem_starts_of_leads {node target : Node} {above : List Node}
    (h : node.Leads above target) {s : Nat} (hs : s ∈ target.starts) : s ∈ node.starts := by
  obtain ⟨item, hi, rfl⟩ := List.mem_map.mp hs
  exact List.mem_map_of_mem (h.mem_items hi)

/-- What begins in a child of a node begins in the node. -/
theorem mem_starts_of_mem_children {node child : Node} (hc : child ∈ node.children) {s : Nat}
    (hs : s ∈ child.starts) : s ∈ node.starts :=
  mem_starts_of_leads (.down hc (.here child)) hs

theorem Apart.of_leads {m n target : Node} {above : List Node} (h : Apart m n)
    (hl : m.Leads above target) : Apart target n :=
  fun s hs => h s (mem_starts_of_leads hl hs)

/-- The children of a node share nothing. -/
theorem pairwise_children {node : Node} (hnd : node.starts.Nodup) :
    node.children.Pairwise Apart := by
  have hchildren := nodup_itemsOf hnd
  generalize node.children = nodes at hchildren
  induction nodes with
  | nil => exact .nil
  | cons n ns ih =>
    rw [itemsOf, List.map_append, List.nodup_append] at hchildren
    obtain ⟨-, hrest, hdisjoint⟩ := hchildren
    refine List.pairwise_cons.mpr ⟨fun m hm s hs hs' => hdisjoint s hs s ?_ rfl, ih hrest⟩
    obtain ⟨item, hi, rfl⟩ := List.mem_map.mp hs'
    exact List.mem_map_of_mem (mem_itemsOf hm hi)

/-- What stands below a node has its items at different offsets if the node has. -/
theorem nodup_starts_of_leads {node target : Node} {above : List Node}
    (hnd : node.starts.Nodup) (h : node.Leads above target) : target.starts.Nodup := by
  induction h with
  | here node => exact hnd
  | down hc h ih => exact ih (nodup_items_of_mem (nodup_itemsOf hnd) hc)

/-- The offset is one in the first child with the given name. -/
def Below (node : Node) (name : String) (s : Nat) : Prop :=
  ∃ child, node.child? name = some child ∧ s ∈ child.starts

theorem Below.mem_starts {node : Node} {name : String} {s : Nat} (h : node.Below name s) :
    s ∈ node.starts := by
  obtain ⟨child, hc, hs⟩ := h
  exact mem_starts_of_mem_children (mem_children_of_child? hc) hs

/-- Children with different names share nothing. -/
theorem Below.unique {node : Node} {name name' : String} {s : Nat} (hnd : node.starts.Nodup)
    (h : node.Below name s) (h' : node.Below name' s) : name = name' := by
  obtain ⟨child, hc, hs⟩ := h
  obtain ⟨child', hc', hs'⟩ := h'
  obtain rfl := eq_of_shared_start (nodup_itemsOf hnd) (mem_children_of_child? hc)
    (mem_children_of_child? hc') hs hs'
  exact Option.some.inj ((name?_of_child? hc).symm.trans (name?_of_child? hc'))

end Xml.Node

/-! ## Texts that begin at different offsets -/

/-- Two spans, where there are both, begin at different offsets. -/
def Span.Separate (x y : Option Span) : Prop :=
  ∀ a ∈ x, ∀ b ∈ y, a.start ≠ b.start

theorem Span.Separate.symm {x y : Option Span} (h : Span.Separate x y) : Span.Separate y x :=
  fun b hb a ha he => h a ha b hb he.symm

/-- The spans, where there are any, are those of different texts of the project, at offsets with a
property. -/
structure Spread (project : Node) (P : Nat → Prop) (spans : List (Option Span)) : Prop where
  within : ∀ x ∈ spans, ∀ span ∈ x, ∃ s source, .text s source source ∈ project.items ∧
    trim source ≠ [] ∧ span = middleOf s source ∧ P s
  separate : spans.Pairwise Span.Separate

namespace Spread

variable {cs head : List Char} {project : Node} {pieces : List Piece} {P Q : Nat → Prop}
  {xs ys : List (Option Span)}

theorem nil (project : Node) (P : Nat → Prop) : Spread project P [] :=
  ⟨fun _ hx => absurd hx List.not_mem_nil, .nil⟩

theorem mono (h : Spread project P xs) (hPQ : ∀ s, P s → Q s) : Spread project Q xs where
  within x hx span hs := by
    obtain ⟨s, source, hi, hne, he, hp⟩ := h.within x hx span hs
    exact ⟨s, source, hi, hne, he, hPQ s hp⟩
  separate := h.separate

/-- Texts at different offsets may stand in one list. -/
theorem append (hl : Layout cs project head pieces) (hx : Spread project P xs)
    (hy : Spread project Q ys) (hPQ : ∀ s, P s → ¬ Q s) :
    Spread project (fun s => P s ∨ Q s) (xs ++ ys) where
  within x hmem span hs := by
    rcases List.mem_append.mp hmem with hmem | hmem
    · obtain ⟨s, source, hi, hne, he, hp⟩ := hx.within x hmem span hs
      exact ⟨s, source, hi, hne, he, Or.inl hp⟩
    · obtain ⟨s, source, hi, hne, he, hq⟩ := hy.within x hmem span hs
      exact ⟨s, source, hi, hne, he, Or.inr hq⟩
  separate := by
    refine List.pairwise_append.mpr ⟨hx.separate, hy.separate, fun x hxm y hym a ha b hb he => ?_⟩
    obtain ⟨s, source, hi, hne, rfl, hp⟩ := hx.within x hxm a ha
    obtain ⟨s', source', hi', hne', rfl, hq⟩ := hy.within y hym b hb
    obtain rfl := hl.start_unique hi hi' hne hne' he
    exact hPQ s hp hq

/-- What is read in nodes that share nothing. -/
theorem flatMap {α : Type} {f : α → Node} {read : α → List (Option Span)}
    (hl : Layout cs project head pieces) {as : List α}
    (h : as.Pairwise fun a b => Node.Apart (f a) (f b))
    (hread : ∀ a ∈ as, Spread project (· ∈ (f a).starts) (read a)) :
    Spread project (fun s => ∃ a ∈ as, s ∈ (f a).starts) (as.flatMap read) := by
  induction as with
  | nil => exact nil project _
  | cons a as ih =>
    obtain ⟨ha, has⟩ := List.pairwise_cons.mp h
    rw [List.flatMap_cons]
    have hrest := ih has fun b hb => hread b (List.mem_cons_of_mem _ hb)
    refine (append hl (hread a List.mem_cons_self) hrest ?_).mono ?_
    · rintro s hs ⟨b, hb, hs'⟩
      exact ha b hb s hs hs'
    · rintro s (hs | ⟨b, hb, hs⟩)
      · exact ⟨a, List.mem_cons_self, hs⟩
      · exact ⟨b, List.mem_cons_of_mem _ hb, hs⟩

/-- The text of an element. -/
theorem plainSpan {element : Node} {above : List Node} (hp : project.Leads above element) :
    Spread project (· ∈ element.starts) [element.plainSpan?] where
  within x hx span hs := by
    obtain rfl := List.mem_singleton.mp hx
    obtain ⟨s, source, hc, hne, rfl⟩ := Node.plainSpan?_eq_some_iff.mp hs
    have htext : .text s source source ∈ element.children := hc ▸ List.mem_singleton_self _
    have hi : .text s source source ∈ element.items :=
      Node.mem_items_of_mem_children htext List.mem_cons_self
    exact ⟨s, source, hp.mem_items hi, hne, rfl, List.mem_map_of_mem hi⟩
  separate := List.pairwise_singleton _ _

end Spread

/-! ## The declarations of a project -/

namespace Pom

variable {cs head : List Char} {project : Node} {pieces : List Piece}

/-- The children with one name share nothing. -/
theorem pairwise_childrenNamed {node : Node} (hnd : node.starts.Nodup) (name : String) :
    (node.childrenNamed name).Pairwise Node.Apart :=
  (Node.pairwise_children hnd).sublist List.filter_sublist

/-- A node below the project has its items at different offsets. -/
theorem nodup_starts (hl : Layout cs project head pieces) {node : Node} {above : List Node}
    (hp : project.Leads above node) : node.starts.Nodup := by
  obtain ⟨stop, hs⟩ := hl.sound
  exact Node.nodup_starts_of_leads hs.nodup hp

/-- What the children of a node declare, each with the text of an element in it. -/
theorem spread_filterMap {α : Type} {declared? : Node → Option α} {span? : α → Option Span}
    (hl : Layout cs project head pieces) {nodes : List Node} (h : nodes.Pairwise Node.Apart)
    (hread : ∀ node ∈ nodes, ∀ d, declared? node = some d → ∃ above element,
      project.Leads above element ∧ span? d = element.plainSpan? ∧
        ∀ s ∈ element.starts, s ∈ node.starts) :
    Spread project (fun s => ∃ node ∈ nodes, s ∈ node.starts)
      ((nodes.filterMap declared?).map span?) := by
  rw [List.map_filterMap, List.filterMap_eq_flatMap_toList]
  refine Spread.flatMap (f := id) hl h fun node hn => ?_
  cases hd : declared? node with
  | none => exact Spread.nil project _
  | some d =>
    obtain ⟨above, element, hp, hspan, hin⟩ := hread node hn d hd
    rw [Option.map_some, Option.toList_some, hspan]
    exact (Spread.plainSpan hp).mono hin

/-- What is read of the child of a node. -/
theorem spread_child? {node : Node} {name : String} {read : Node → List (Option Span)}
    (hread : ∀ child, node.child? name = some child →
      Spread project (· ∈ child.starts) (read child)) :
    Spread project (node.Below name) ((node.child? name).toList.flatMap read) := by
  cases hc : node.child? name with
  | none => exact Spread.nil project _
  | some child =>
    rw [Option.toList_some, List.flatMap_singleton]
    exact (hread child hc).mono fun s hs => ⟨child, hc, hs⟩

/-- The dependencies of a list. -/
theorem spread_dependenciesIn (hl : Layout cs project head pieces) {list : Node}
    {above : List Node} (hp : project.Leads above list) (origin : Origin) :
    Spread project (· ∈ list.starts) ((dependenciesIn origin list).map (·.span?)) := by
  refine (spread_filterMap hl (pairwise_childrenNamed (nodup_starts hl hp) "dependency")
    fun node hn d hd => ?_).mono ?_
  · obtain ⟨hmem, -⟩ := Node.mem_childrenNamed hn
    obtain ⟨group, -, hd⟩ := Option.bind_eq_some_iff.mp hd
    obtain ⟨artifact, -, hd⟩ := Option.bind_eq_some_iff.mp hd
    obtain ⟨version, hv, hd⟩ := Option.bind_eq_some_iff.mp hd
    have hchild := Node.mem_children_of_child? hv
    obtain rfl := eq_of_dependencyOf? hd
    exact ⟨_, version, (hp.snoc hmem).snoc hchild, rfl,
      fun s hs => Node.mem_starts_of_mem_children hchild hs⟩
  · rintro s ⟨node, hn, hs⟩
    obtain ⟨hmem, -⟩ := Node.mem_childrenNamed hn
    exact Node.mem_starts_of_mem_children hmem hs

/-- The dependencies of a plugin. -/
theorem spread_pluginDependencies (hl : Layout cs project head pieces) {plugin : Node}
    {above : List Node} (hp : project.Leads above plugin) (origin : ProfileSection → Origin) :
    Spread project (· ∈ plugin.starts) ((pluginDependencies origin plugin).map (·.span?)) := by
  rw [pluginDependencies]
  split
  · next artifact list ha hlist =>
    have hchild := Node.mem_children_of_child? hlist
    exact (spread_dependenciesIn hl (hp.snoc hchild) _).mono fun s hs =>
      Node.mem_starts_of_mem_children hchild hs
  · exact Spread.nil project _

/-- The lists of plugins of a build stand below it and share nothing. -/
theorem pairwise_pluginLists {build : Node} (hnd : build.starts.Nodup) :
    ((build.child? "plugins").toList ++
        ((build.child? "pluginManagement").bind (·.child? "plugins")).toList).Pairwise
          Node.Apart ∧
      ∀ list ∈ (build.child? "plugins").toList ++
          ((build.child? "pluginManagement").bind (·.child? "plugins")).toList,
        ∃ above, build.Leads above list := by
  refine ⟨List.pairwise_append.mpr ⟨Option.pairwise_toList, Option.pairwise_toList,
    fun a ha b hb s hs hs' => ?_⟩, fun list h => ?_⟩
  · -- managed plugins stand in another child of the build
    obtain ⟨managed, hm, hlist⟩ := Option.bind_eq_some_iff.mp (Option.mem_toList.mp hb)
    have hplain : build.Below "plugins" s := ⟨a, Option.mem_toList.mp ha, hs⟩
    have hmanaged : build.Below "pluginManagement" s := ⟨managed, hm,
      Node.mem_starts_of_mem_children (Node.mem_children_of_child? hlist) hs'⟩
    exact absurd (Node.Below.unique hnd hplain hmanaged) (by decide)
  · rcases List.mem_append.mp h with h | h
    · have hc := Node.mem_children_of_child? (Option.mem_toList.mp h)
      exact ⟨_, .down hc (.here list)⟩
    · obtain ⟨managed, hm, hlist⟩ := Option.bind_eq_some_iff.mp (Option.mem_toList.mp h)
      exact ⟨_, .down (Node.mem_children_of_child? hm)
        (.down (Node.mem_children_of_child? hlist) (.here list))⟩

/-- The plugins of a project or of a profile share nothing, and all stand in its build. -/
theorem pairwise_pluginsIn {node : Node} (hnd : node.starts.Nodup) :
    (pluginsIn node).Pairwise Node.Apart ∧
      ∀ plugin ∈ pluginsIn node, ∀ s ∈ plugin.starts, node.Below "build" s := by
  rw [pluginsIn]
  split
  · next build hbuild =>
    have hbuildnd := Node.nodup_starts_of_leads hnd
      (.down (Node.mem_children_of_child? hbuild) (.here build))
    obtain ⟨hlists, hleads⟩ := pairwise_pluginLists hbuildnd
    refine ⟨List.pairwise_flatMap.mpr ⟨fun list h => ?_, hlists.imp fun hab a ha b hb => ?_⟩,
      fun plugin h s hs => ?_⟩
    · obtain ⟨above, hp⟩ := hleads list h
      exact pairwise_childrenNamed (Node.nodup_starts_of_leads hbuildnd hp) "plugin"
    · have ha' := hab.of_leads (.down (Node.mem_childrenNamed ha).1 (.here a))
      exact (ha'.symm.of_leads (.down (Node.mem_childrenNamed hb).1 (.here b))).symm
    · obtain ⟨list, hlist, hmem⟩ := List.mem_flatMap.mp h
      obtain ⟨above, hp⟩ := hleads list hlist
      exact ⟨build, hbuild,
        Node.mem_starts_of_leads (hp.snoc (Node.mem_childrenNamed hmem).1) hs⟩
  · exact ⟨.nil, fun plugin hp => absurd hp List.not_mem_nil⟩

/-- The dependencies of the project or of a profile, section by section. -/
theorem spread_sectionDependencies (hl : Layout cs project head pieces) {node : Node}
    {above : List Node} (hp : project.Leads above node) (origin : ProfileSection → Origin) :
    Spread project (fun s => (node.Below "dependencies" s ∨ node.Below "dependencyManagement" s) ∨
      node.Below "build" s) ((sectionDependencies origin node).map (·.span?)) := by
  have hnd := nodup_starts hl hp
  have hdirect : Spread project (node.Below "dependencies")
      ((node.child? "dependencies").toList.flatMap fun list =>
        (dependenciesIn (origin .direct) list).map (·.span?)) :=
    spread_child? fun list hlist =>
      spread_dependenciesIn hl (hp.snoc (Node.mem_children_of_child? hlist)) _
  have hmanaged : Spread project (node.Below "dependencyManagement")
      (((node.child? "dependencyManagement").bind (·.child? "dependencies")).toList.flatMap
        fun list => (dependenciesIn (origin .management) list).map (·.span?)) := by
    cases hm : node.child? "dependencyManagement" with
    | none => exact Spread.nil project _
    | some managed =>
      have hp' := hp.snoc (Node.mem_children_of_child? hm)
      have hlist : Spread project (managed.Below "dependencies")
          ((managed.child? "dependencies").toList.flatMap fun list =>
            (dependenciesIn (origin .management) list).map (·.span?)) :=
        spread_child? fun list hlist =>
          spread_dependenciesIn hl (hp'.snoc (Node.mem_children_of_child? hlist)) _
      exact hlist.mono fun s hs => ⟨managed, hm, hs.mem_starts⟩
  obtain ⟨hapart, hbuild⟩ := pairwise_pluginsIn hnd
  have hplugins : Spread project (node.Below "build")
      ((pluginsIn node).flatMap fun plugin =>
        (pluginDependencies origin plugin).map (·.span?)) := by
    refine (Spread.flatMap (f := id) hl hapart fun plugin hmem => ?_).mono ?_
    · obtain ⟨-, ⟨_, _, hleads, -⟩ | ⟨_, _, _, hleads, -⟩⟩ := leads_of_mem_pluginsIn hmem
      · exact spread_pluginDependencies hl (hp.trans hleads) origin
      · exact spread_pluginDependencies hl (hp.trans hleads) origin
    · rintro s ⟨plugin, hmem, hs⟩
      exact hbuild plugin hmem s hs
  have hboth := Spread.append hl hdirect hmanaged fun s h h' =>
    absurd (Node.Below.unique hnd h h') (by decide)
  have hall := Spread.append hl hboth hplugins fun s h h' => by
    rcases h with h | h <;> exact absurd (Node.Below.unique hnd h h') (by decide)
  rw [sectionDependencies, List.map_append, List.map_append, List.map_flatMap, List.map_flatMap,
    List.map_flatMap]
  exact hall

/-- The properties of the project or of a profile. -/
theorem spread_propertiesIn (hl : Layout cs project head pieces) {node : Node}
    {above : List Node} (hp : project.Leads above node) (scope : Scope) :
    Spread project (node.Below "properties") ((propertiesIn scope node).map (·.span?)) := by
  rw [propertiesIn]
  split
  · next list hlist =>
    have hp' := hp.snoc (Node.mem_children_of_child? hlist)
    refine (spread_filterMap hl (Node.pairwise_children (nodup_starts hl hp'))
      fun property hmem p he => ?_).mono ?_
    · obtain ⟨name, -, rfl⟩ := Option.map_eq_some_iff.mp he
      exact ⟨_, property, hp'.snoc hmem, rfl, fun s hs => hs⟩
    · rintro s ⟨property, hmem, hs⟩
      exact ⟨list, hlist, Node.mem_starts_of_mem_children hmem hs⟩
  · exact Spread.nil project _

/-- The profiles of a project share nothing, and all stand in its list of profiles. -/
theorem pairwise_profilesIn (hnd : project.starts.Nodup) :
    (profilesIn project).Pairwise (fun a b => Node.Apart a.2 b.2) ∧
      ∀ profile ∈ profilesIn project, ∀ s ∈ profile.2.starts, project.Below "profiles" s := by
  rw [profilesIn]
  cases hlist : project.child? "profiles" with
  | none => exact ⟨.nil, fun profile hp => absurd hp List.not_mem_nil⟩
  | some list =>
    have hlistnd := Node.nodup_starts_of_leads hnd
      (.down (Node.mem_children_of_child? hlist) (.here list))
    rw [Option.toList_some, List.flatMap_singleton]
    refine ⟨List.pairwise_filterMap.mpr
      ((pairwise_childrenNamed hlistnd "profile").imp fun hab a ha b hb => ?_),
        fun profile h s hs => ?_⟩
    · obtain ⟨_, -, rfl⟩ := Option.map_eq_some_iff.mp ha
      obtain ⟨_, -, rfl⟩ := Option.map_eq_some_iff.mp hb
      exact hab
    · obtain ⟨node, hmem, he⟩ := List.mem_filterMap.mp h
      obtain ⟨_, -, rfl⟩ := Option.map_eq_some_iff.mp he
      exact ⟨list, hlist,
        Node.mem_starts_of_mem_children (Node.mem_childrenNamed hmem).1 hs⟩

/-- What is read of each profile. -/
theorem spread_profiles (hl : Layout cs project head pieces)
    {read : String × Node → List (Option Span)}
    (hread : ∀ profile above, project.Leads above profile.2 →
      Spread project (· ∈ profile.2.starts) (read profile)) :
    Spread project (project.Below "profiles") ((profilesIn project).flatMap read) := by
  obtain ⟨hapart, hbelow⟩ := pairwise_profilesIn (nodup_starts hl (.here project))
  refine (Spread.flatMap hl hapart fun profile hmem => ?_).mono ?_
  · obtain ⟨list, hp, -⟩ := leads_of_mem_profilesIn hmem
    exact hread profile _ hp
  · rintro s ⟨profile, hmem, hs⟩
    exact hbelow profile hmem s hs

/-- **No two dependencies have a text at the same place.** -/
theorem pairwise_declarations (hl : Layout cs project head pieces) :
    (declarations project).Pairwise fun d e => Span.Separate d.span? e.span? := by
  have hnd := nodup_starts hl (.here project)
  have hparent : Spread project (project.Below "parent")
      ((parentDependency? project).toList.map (·.span?)) := by
    cases hd : parentDependency? project with
    | none => exact Spread.nil project _
    | some d =>
      obtain ⟨node, hn, hd⟩ := Option.bind_eq_some_iff.mp hd
      obtain ⟨parent, -, hd⟩ := Option.bind_eq_some_iff.mp hd
      obtain ⟨version, hv, hd⟩ := Option.bind_eq_some_iff.mp hd
      have hp : project.Leads _ version :=
        .down (Node.mem_children_of_child? hn) (.down (Node.mem_children_of_child? hv)
          (.here version))
      obtain rfl := eq_of_dependencyOf? hd
      rw [Option.toList_some, List.map_singleton]
      exact (Spread.plainSpan hp).mono fun s hs =>
        ⟨node, hn, Node.mem_starts_of_mem_children (Node.mem_children_of_child? hv) hs⟩
  have hsections := spread_sectionDependencies hl (.here project) projectOrigin
  have hprofiles : Spread project (project.Below "profiles")
      ((profilesIn project).flatMap fun profile =>
        (sectionDependencies (.profile profile.1) profile.2).map (·.span?)) := by
    refine spread_profiles hl fun profile above hp => ?_
    refine (spread_sectionDependencies hl hp (.profile profile.1)).mono fun s hs => ?_
    rcases hs with (hs | hs) | hs <;> exact hs.mem_starts
  have hboth := Spread.append hl hparent hsections fun s h h' => by
    rcases h' with (h' | h') | h' <;> exact absurd (Node.Below.unique hnd h h') (by decide)
  have hall := Spread.append hl hboth hprofiles fun s h h' => by
    rcases h with h | (h | h) | h <;> exact absurd (Node.Below.unique hnd h h') (by decide)
  have hspans := hall.separate
  rw [← List.map_flatMap, ← List.map_append, ← List.map_append, List.pairwise_map] at hspans
  exact hspans

/-- **No two properties have a value at the same place.** -/
theorem pairwise_allProperties (hl : Layout cs project head pieces) :
    (allProperties project).Pairwise fun p q => Span.Separate p.span? q.span? := by
  have hnd := nodup_starts hl (.here project)
  have hprofiles : Spread project (project.Below "profiles")
      ((profilesIn project).flatMap fun profile =>
        (propertiesIn (.profile profile.1) profile.2).map (·.span?)) := by
    refine spread_profiles hl fun profile above hp => ?_
    exact (spread_propertiesIn hl hp (.profile profile.1)).mono fun s hs => hs.mem_starts
  have hall := Spread.append hl (spread_propertiesIn hl (.here project) .root) hprofiles
    fun s h h' => absurd (Node.Below.unique hnd h h') (by decide)
  have hspans := hall.separate
  rw [← List.map_flatMap, ← List.map_append, List.pairwise_map] at hspans
  exact hspans

end Pom

end MavenUpgrade

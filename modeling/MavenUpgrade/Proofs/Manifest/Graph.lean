import Mathlib
import MavenUpgrade.Manifest.Draft
import MavenUpgrade.Proofs.Manifest.Applying
import MavenUpgrade.Proofs.Manifest.Reading

/-!
# The property graph of a manifest

A manifest is made by taking up the declarations of its document one after the other. What each
step keeps (`PropertyGraph.Holds.add`, `Draft.Reads.add`) holds of the whole document: its first
declarations are the requirements, and the two sides of the graph tell the same references, under
the indices that the requirements have once repeated declarations are left out
(`Manifest.read_links`).
-/

namespace MavenUpgrade

/-! ## Adding one requirement -/

namespace PropertyGraph

/-- An index is noted last under each of the given properties and under no other one. -/
theorem get?_foldl_note (index : Nat) {refs : List PropertyRef} (hnodup : refs.Nodup)
    (members : OrderedMap PropertyRef (List Nat)) (p : PropertyRef) :
    ((refs.foldl (note index) members).get? p).getD [] =
      (members.get? p).getD [] ++ if p ∈ refs then [index] else [] := by
  induction refs generalizing members with
  | nil => exact (List.append_nil _).symm
  | cons q refs ih =>
    obtain ⟨hq, hnodup⟩ := List.nodup_cons.mp hnodup
    rw [List.foldl_cons, ih hnodup, note, OrderedMap.get?_insert]
    by_cases hp : p = q
    · subst hp
      rw [if_pos rfl, if_neg hq, if_pos List.mem_cons_self, Option.getD_some, List.append_nil]
    · rw [if_neg hp]
      congr 1
      exact if_congr (by rw [List.mem_cons, or_iff_right hp]) rfl rfl

theorem membersOf_add (g : PropertyGraph) (index : Nat) {refs : List PropertyRef}
    (hnodup : refs.Nodup) (p : PropertyRef) :
    (g.add index refs).membersOf p = g.membersOf p ++ if p ∈ refs then [index] else [] :=
  get?_foldl_note index hnodup g.members p

theorem mem_membersOf_add (g : PropertyGraph) (index : Nat) {refs : List PropertyRef}
    (hnodup : refs.Nodup) (p : PropertyRef) (i : Nat) :
    i ∈ (g.add index refs).membersOf p ↔ i ∈ g.membersOf p ∨ i = index ∧ p ∈ refs := by
  rw [membersOf_add g index hnodup, List.mem_append]
  refine or_congr_right ?_
  split
  · next hp => rw [List.mem_singleton, and_iff_left hp]
  · next hp => exact iff_of_false List.not_mem_nil fun h => hp h.2

/-- Properties are listed in the order in which indices were first noted under them. -/
theorem keys_foldl_note (index : Nat) (refs : List PropertyRef)
    {members : OrderedMap PropertyRef (List Nat)} {used : List PropertyRef}
    (h : members.keys = distinct used) :
    (refs.foldl (note index) members).keys = distinct (used ++ refs) := by
  induction refs generalizing members used with
  | nil => rw [List.foldl_nil, h, List.append_nil]
  | cons q refs ih =>
    have hnote : (note index members q).keys = distinct (used ++ [q]) :=
      OrderedMap.keys_insert_of_keys h q _
    rw [List.foldl_cons, ih hnote, List.append_assoc, List.singleton_append]

/-- The references of a requirement with the next index are placed last. -/
theorem refs_add (g : PropertyGraph) (refs : List PropertyRef) :
    (g.add g.refs.length refs).refs = g.refs ++ [refs] := by
  show (g.refs ++ List.replicate (g.refs.length + 1 - g.refs.length) []).set g.refs.length refs = _
  rw [Nat.add_sub_cancel_left, List.set_append_right _ _ (Nat.le_refl _), Nat.sub_self]
  rfl

/-- A graph holds what the requirements refer to, given in their order: both sides tell of the same
references, and the indices under a property increase. -/
structure Holds (g : PropertyGraph) (lists : List (List PropertyRef)) : Prop where
  refs : g.refs = lists
  properties : g.properties = distinct lists.flatten
  mem_membersOf_iff : ∀ p i, i ∈ g.membersOf p ↔ p ∈ g.refsAt i
  increasing : ∀ p, (g.membersOf p).Pairwise (· < ·)

theorem holds_empty : empty.Holds [] where
  refs := rfl
  properties := rfl
  mem_membersOf_iff _ _ := iff_of_false List.not_mem_nil List.not_mem_nil
  increasing _ := List.Pairwise.nil

variable {g : PropertyGraph} {lists : List (List PropertyRef)}

/-- No index behind the last requirement stands under a property. -/
theorem Holds.lt_length (h : g.Holds lists) {p : PropertyRef} {i : Nat} (hi : i ∈ g.membersOf p) :
    i < lists.length := by
  have hp := (h.mem_membersOf_iff p i).mp hi
  rw [refsAt, h.refs] at hp
  by_contra hlt
  rw [List.getElem?_eq_none (Nat.le_of_not_lt hlt)] at hp
  cases hp

/-- **Adding the next requirement keeps what a graph holds.** -/
theorem Holds.add (h : g.Holds lists) {next : List PropertyRef} (hnodup : next.Nodup) :
    (g.add lists.length next).Holds (lists ++ [next]) := by
  have hrefs : (g.add lists.length next).refs = lists ++ [next] := by rw [← h.refs, refs_add]
  have hmem := mem_membersOf_add g lists.length hnodup
  refine ⟨hrefs, ?_, fun p i => ?_, fun p => ?_⟩
  · rw [List.flatten_append, List.flatten_singleton]
    exact keys_foldl_note lists.length next h.properties
  · rw [hmem, refsAt, hrefs]
    rcases Nat.lt_trichotomy i lists.length with hlt | rfl | hgt
    · -- the index of a requirement that was there before
      rw [List.getElem?_append_left hlt, or_iff_left fun hi => Nat.ne_of_lt hlt hi.1,
        h.mem_membersOf_iff, refsAt, h.refs]
    · -- the index of the new requirement
      rw [List.getElem?_concat_length, Option.getD_some, and_iff_right rfl, or_iff_right]
      exact fun hi => absurd (h.lt_length hi) (Nat.lt_irrefl _)
    · -- no requirement has the index
      rw [List.getElem?_eq_none (by rw [List.length_append]; exact hgt)]
      refine iff_of_false (fun hi => ?_) List.not_mem_nil
      rcases hi with hi | ⟨hi, -⟩
      · exact absurd (h.lt_length hi) (Nat.lt_asymm hgt)
      · exact Nat.ne_of_gt hgt hi
  · rw [membersOf_add g lists.length hnodup, List.pairwise_append]
    refine ⟨h.increasing p, ?_, fun i hi j hj => ?_⟩
    · split
      · exact List.pairwise_singleton _ _
      · exact List.Pairwise.nil
    · split at hj
      · rw [List.mem_singleton.mp hj]
        exact h.lt_length hi
      · cases hj

end PropertyGraph

/-! ## Taking up one declaration -/

namespace Draft

/-- A draft is what taking up the given declarations comes to: their first ones are the
requirements, and the graph holds what these refer to. -/
structure Reads (env : Environment) (ds : List DependencyDeclaration) (s : Draft) : Prop where
  seen : ∀ key, key ∈ s.seen ↔ key ∈ ds.map DependencyDeclaration.key
  requirements :
    s.requirements = (distinctBy DependencyDeclaration.key ds).map (Manifest.requirementOf env)
  graph : s.graph.Holds (s.requirements.map fun r => env.refs r.origin.scope r.declared)

variable {env : Environment} {ds : List DependencyDeclaration} {s : Draft}

theorem reads_empty (env : Environment) : empty.Reads env [] where
  seen _ := iff_of_false List.not_mem_nil List.not_mem_nil
  requirements := rfl
  graph := PropertyGraph.holds_empty

/-- A repeated declaration changes nothing. -/
theorem Reads.repeated (h : s.Reads env ds) {d : DependencyDeclaration}
    (hd : d.key ∈ ds.map DependencyDeclaration.key) : s.Reads env (ds ++ [d]) where
  seen key := by
    rw [h.seen, List.map_append, List.mem_append, List.map_singleton, List.mem_singleton]
    exact (or_iff_left_of_imp fun hk => hk ▸ hd).symm
  requirements := by rw [distinctBy_concat, if_pos hd, h.requirements]
  graph := h.graph

/-- A declaration with a new key is the next requirement. -/
theorem Reads.fresh (h : s.Reads env ds) {d : DependencyDeclaration}
    (hd : d.key ∉ ds.map DependencyDeclaration.key) :
    Reads env (ds ++ [d])
      { seen := d.key :: s.seen
        requirements := s.requirements ++ [Manifest.requirementOf env d]
        graph := s.graph.add s.requirements.length (env.refs d.origin.scope d.declared) } where
  seen key := by
    rw [List.mem_cons, h.seen, List.map_append, List.mem_append, List.map_singleton,
      List.mem_singleton, or_comm]
  requirements := by
    rw [distinctBy_concat, if_neg hd, List.map_append, h.requirements, List.map_singleton]
  graph := by
    have hgraph := h.graph.add (env.nodup_refs d.origin.scope d.declared)
    rw [List.length_map] at hgraph
    rw [List.map_append]
    exact hgraph

/-- **Taking up a declaration keeps what a draft is.** -/
theorem Reads.add (h : s.Reads env ds) (d : DependencyDeclaration) :
    (s.add env d).Reads env (ds ++ [d]) := by
  show Reads env (ds ++ [d]) (if d.key ∈ s.seen then s else _)
  split
  · next hs => exact h.repeated ((h.seen d.key).mp hs)
  · next hs => exact h.fresh fun hd => hs ((h.seen d.key).mpr hd)

/-- **All declarations of a document are taken up.** -/
theorem reads_ofPom (pom : Pom) :
    (ofPom pom).Reads (Manifest.environmentOf pom) pom.dependencies := by
  have hall (ds : List DependencyDeclaration) :
      Reads (Manifest.environmentOf pom) ds
        (ds.foldl (Draft.add (Manifest.environmentOf pom)) empty) := by
    induction ds using List.reverseRecOn with
    | nil => exact reads_empty _
    | append_singleton ds d ih =>
      rw [List.foldl_append, List.foldl_cons, List.foldl_nil]
      exact ih.add d
  exact hall pom.dependencies

end Draft

/-! ## The graph of a manifest -/

/-- The dependencies of a document stand in its order. -/
theorem Pom.pairwise_position {text : String} {pom : Pom} (h : Pom.read text = .ok pom) :
    pom.dependencies.Pairwise fun d e => d.position ≤ e.position := by
  obtain ⟨project, root, -, -, -, rfl⟩ := exists_of_read h
  show ((declarations project).insertionSort fun d e => d.position ≤ e.position).Pairwise _
  rw [← mergeSort_position]
  have hsorted : ((declarations project).mergeSort fun d e => d.position ≤ e.position).Pairwise
      fun d e => decide (d.position ≤ e.position) = true := by
    refine List.pairwise_mergeSort (fun d e f hde hef => ?_) (fun d e => ?_) _
    · rw [decide_eq_true_eq] at hde hef ⊢
      omega
    · rw [Bool.or_eq_true, decide_eq_true_eq, decide_eq_true_eq]
      omega
  exact hsorted.imp of_decide_eq_true

namespace Manifest

/-- Two ways to tell which requirements refer to which declared properties, by the properties and by
the indices of the requirements, tell the same, in order and without repetition. -/
structure Links (m : Manifest) (members : PropertyRef → List Nat)
    (refs : Nat → List PropertyRef) : Prop where
  mem_members_iff : ∀ p i, i ∈ members p ↔ p ∈ refs i
  mem_refs_iff : ∀ p i, p ∈ refs i ↔ ∃ r, m.requirements[i]? = some r ∧
    p.name ∈ Placeholder.names r.declared ∧
      m.properties.locate? r.origin.scope p.name = some p.scope
  increasing : ∀ p, (members p).Pairwise (· < ·)
  nodup_refs : ∀ i, (refs i).Nodup

/-- A requirement refers to the properties that its declared text names, each as its scope sees
it. -/
theorem mem_refsAt_iff (m : Manifest) (p : PropertyRef) (i : Nat) :
    p ∈ m.refsAt i ↔ ∃ r, m.requirements[i]? = some r ∧
      p.name ∈ Placeholder.names r.declared ∧
        m.properties.locate? r.origin.scope p.name = some p.scope := by
  rw [refsAt]
  cases m.requirements[i]? with
  | none => exact iff_of_false List.not_mem_nil fun ⟨r, hr, _⟩ => by cases hr
  | some r =>
    rw [Option.map_some, Option.getD_some, requirementRefs, m.mem_refs_iff]
    constructor
    · exact fun h => ⟨r, rfl, h⟩
    · rintro ⟨r', hr, h⟩
      obtain rfl := Option.some.inj hr
      exact h

/-- The members of a property are the requirements that refer to it. -/
theorem mem_members_iff (m : Manifest) (p : PropertyRef) (i : Nat) :
    i ∈ m.members p ↔ p ∈ m.refsAt i := by
  rw [members, List.mem_filter, List.mem_range, decide_eq_true_eq, and_iff_right_of_imp]
  intro hp
  obtain ⟨r, hr, -⟩ := (m.mem_refsAt_iff p i).mp hp
  exact (List.getElem?_eq_some_iff.mp hr).1

/-- **Members and references are the two sides of one relation.** -/
theorem links_members_refsAt (m : Manifest) : m.Links m.members m.refsAt where
  mem_members_iff := m.mem_members_iff
  mem_refs_iff := m.mem_refsAt_iff
  increasing _ := List.pairwise_lt_range.filter _
  nodup_refs i := by
    rw [refsAt]
    cases m.requirements[i]? with
    | none => exact List.nodup_nil
    | some r => exact m.nodup_refs _ _

theorem requirements_ofPom (pom : Pom) : (Draft.ofPom pom).requirements = (ofPom pom).requirements :=
  (Draft.reads_ofPom pom).requirements

/-- The graph that is built up tells of each requirement what it refers to. -/
theorem refsAt_ofPom (pom : Pom) : (Draft.ofPom pom).graph.refsAt = (ofPom pom).refsAt := by
  funext i
  rw [PropertyGraph.refsAt, (Draft.reads_ofPom pom).graph.refs, requirements_ofPom,
    List.getElem?_map]
  rfl

/-- The graph that is built up tells of each property which requirements refer to it. -/
theorem membersOf_ofPom (pom : Pom) : (Draft.ofPom pom).graph.membersOf = (ofPom pom).members := by
  funext p
  have hgraph := (Draft.reads_ofPom pom).graph
  refine (hgraph.increasing p).eq_of_mem_iff (List.pairwise_lt_range.filter _) fun i => ?_
  rw [hgraph.mem_membersOf_iff, refsAt_ofPom, ← mem_members_iff, members]

/-- The graph that is built up lists the properties in the order of their first use. -/
theorem properties_ofPom (pom : Pom) :
    (Draft.ofPom pom).graph.properties = (ofPom pom).usedProperties := by
  rw [(Draft.reads_ofPom pom).graph.properties, requirements_ofPom]
  rfl

/-- The requirements are the first declarations with their keys. -/
theorem requirements_eq_firstPlaces (pom : Pom) :
    (ofPom pom).requirements =
      (firstPlaces (fun _ => true) DependencyDeclaration.key pom.dependencies).map fun i =>
        requirementOf (environmentOf pom) (pom.dependencies.get i) := by
  have hfirst := distinctBy_filter (fun _ => true) DependencyDeclaration.key pom.dependencies
  rw [List.filter_true] at hfirst
  show (distinctBy DependencyDeclaration.key pom.dependencies).map _ = _
  rw [hfirst, List.map_map]
  rfl

/-- **What holds of every manifest that is read.** Of the declarations of the document, in its order,
the first one of each package in each place is a requirement, so that no two requirements agree in
both; its version is the value of its declared text in the scope of its place. The graph that is
built up while the declarations are taken up has two sides that tell the same: a requirement stands
under a property exactly when its declared text names the property and its scope sees it there. -/
theorem read_links {text : String} {m : Manifest} (hm : read text = .ok m) :
    ∃ pom, Pom.read text = .ok pom ∧ m.toEnvironment = environmentOf pom ∧
      pom.dependencies.Pairwise (fun d e => d.position ≤ e.position) ∧
      (m.requirements =
        (firstPlaces (fun _ => true) DependencyDeclaration.key pom.dependencies).map fun i =>
          requirementOf m.toEnvironment (pom.dependencies.get i)) ∧
      (m.requirements.map (·.key)).Nodup ∧
      (∀ r ∈ m.requirements, r.resolved = m.resolve r.origin.scope r.declared) ∧
      (Draft.ofPom pom).requirements = m.requirements ∧
      m.Links (Draft.ofPom pom).graph.membersOf (Draft.ofPom pom).graph.refsAt ∧
      (Draft.ofPom pom).graph.membersOf = m.members ∧
      (Draft.ofPom pom).graph.refsAt = m.refsAt ∧
      (Draft.ofPom pom).graph.properties = m.usedProperties := by
  have hresolved := fun r (hr : r ∈ m.requirements) => resolved_of_mem hm hr
  obtain ⟨pom, hpom, rfl⟩ := exists_of_read hm
  have hlinks : (ofPom pom).Links (Draft.ofPom pom).graph.membersOf
      (Draft.ofPom pom).graph.refsAt := by
    rw [membersOf_ofPom, refsAt_ofPom]
    exact (ofPom pom).links_members_refsAt
  exact ⟨pom, hpom, rfl, Pom.pairwise_position hpom, requirements_eq_firstPlaces pom,
    nodup_keys pom, hresolved, requirements_ofPom pom, hlinks, membersOf_ofPom pom,
    refsAt_ofPom pom, properties_ofPom pom⟩

/-- A document in pieces: of its three dependencies, which all take their version from one property,
the second one repeats the first. -/
def repeatedDependency : List String :=
  ["<project><groupId>g</groupId>", "<artifactId>a</artifactId>", "<version>1</version>",
    "<properties><v>1.0</v></properties>", "<dependencies><dependency>",
    "<groupId>g</groupId>", "<artifactId>b</artifactId>", "<version>$\x7bv\x7d</version>",
    "</dependency><dependency>", "<groupId>g</groupId>", "<artifactId>b</artifactId>",
    "<version>$\x7bv\x7d</version>", "</dependency><dependency>", "<groupId>g</groupId>",
    "<artifactId>c</artifactId>", "<version>$\x7bv\x7d</version>",
    "</dependency></dependencies></project>"]

/-- The indices behind a repeated declaration are those of the requirements. -/
theorem read_links_repeated :
    ∃ m pom, read (String.join repeatedDependency) = .ok m ∧
      Pom.read (String.join repeatedDependency) = .ok pom ∧ pom.dependencies.length = 3 ∧
      m.Links (Draft.ofPom pom).graph.membersOf (Draft.ofPom pom).graph.refsAt ∧
      (Draft.ofPom pom).graph.membersOf ⟨.root, "v"⟩ = [0, 1] := by
  obtain ⟨pom, hpom, h⟩ := Pom.exists_of_any repeatedDependency (fun pom =>
    pom.dependencies.length = 3 ∧ (ofPom pom).members ⟨.root, "v"⟩ = [0, 1]) (by decide +kernel)
  obtain ⟨hlength, hmembers⟩ := of_decide_eq_true h
  have hm : read (String.join repeatedDependency) = .ok (ofPom pom) := by
    rw [read, hpom]
    rfl
  obtain ⟨pom', hpom', -, -, -, -, -, -, hlinks, hsame, -, -⟩ := read_links hm
  obtain rfl : pom = pom' := Except.ok.inj (hpom.symm.trans hpom')
  exact ⟨ofPom pom, pom, hm, hpom, hlength, hlinks, by rw [hsame, hmembers]⟩

end Manifest

end MavenUpgrade

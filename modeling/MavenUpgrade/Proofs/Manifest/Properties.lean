import Mathlib
import MavenUpgrade.Manifest.Properties
import MavenUpgrade.Proofs.Collection.Ordered

/-!
# Properties and their insertions

A set of properties tells of the insertions that have made it (`PropertySet.Tells`): of their scopes
and names in the order of their first insertions, and of their values as of the last ones. Each
insertion keeps this (`PropertySet.Tells.insert`), so it holds after any number of them
(`PropertySet.tells_ofInsertions`), and the listing, the size and the answers of the set are known
from it (`PropertySet.insertions_keep_first_order_and_last_values`).
-/

namespace MavenUpgrade

namespace PropertySet

/-! ## What a set lists -/

/-- The names of a scope, in the order in which they are listed. -/
def namesIn (s : PropertySet) (scope : Scope) : List String :=
  ((s.scopes.get? scope).map OrderedMap.keys).getD []

/-- The properties of a set, without their values. -/
def listed (s : PropertySet) : List PropertyRef :=
  s.toList.map fun c => ⟨c.1, c.2.1⟩

/-- A property is listed with the value that it has. -/
theorem mem_toList_iff (s : PropertySet) (scope : Scope) (name value : String) :
    (scope, name, value) ∈ s.toList ↔ s.get? scope name = some value := by
  rw [toList, List.mem_flatMap, get?, Option.bind_eq_some_iff]
  constructor
  · rintro ⟨⟨_, values⟩, hs, h⟩
    obtain ⟨⟨_, _⟩, hn, he⟩ := List.mem_map.mp h
    cases he
    exact ⟨values, (s.scopes.mem_entries_iff scope values).mp hs,
      (values.mem_entries_iff name value).mp hn⟩
  · rintro ⟨values, hs, hn⟩
    exact ⟨(scope, values), (s.scopes.mem_entries_iff scope values).mpr hs,
      List.mem_map.mpr ⟨(name, value), (values.mem_entries_iff name value).mpr hn, rfl⟩⟩

/-- The size of a set is the number of properties that it lists. -/
theorem length_listed (s : PropertySet) : s.listed.length = s.size := by
  have hentry (e : Scope × OrderedMap String String) :
      (e.2.entries.map fun c => (e.1, c.1, c.2)).length = e.2.size := List.length_map _
  rw [listed, List.length_map]
  show (s.scopes.entries.flatMap fun e => e.2.entries.map fun c => (e.1, c.1, c.2)).length =
    s.scopes.entries.foldl (fun n e => n + e.2.size) 0
  rw [List.length_flatMap, funext hentry, List.sum_eq_foldl, List.foldl_map]

/-- Different properties of a set are no more than the set has. -/
theorem length_le_size {s : PropertySet} {ps : List PropertyRef} (hnodup : ps.Nodup)
    (hdeclared : ∀ p ∈ ps, (s.get? p.scope p.name).isSome = true) : ps.length ≤ s.size := by
  have hlisted : ps ⊆ s.listed := by
    intro p hp
    obtain ⟨value, hv⟩ := Option.isSome_iff_exists.mp (hdeclared p hp)
    exact List.mem_map.mpr ⟨_, (s.mem_toList_iff p.scope p.name value).mpr hv, rfl⟩
  rw [← length_listed]
  exact (List.subperm_of_subset hnodup hlisted).length_le

/-- **A set lists the names of each scope with their values**, scope by scope. -/
theorem map_toList (s : PropertySet) :
    s.toList.map (fun c => (c.1, c.2.1, some c.2.2)) =
      s.scopes.keys.flatMap fun scope =>
        (s.namesIn scope).map fun name => (scope, name, s.get? scope name) := by
  show (s.scopes.entries.flatMap fun e => e.2.entries.map fun c => (e.1, c.1, c.2)).map _ =
    (s.scopes.entries.map Prod.fst).flatMap _
  rw [List.map_flatMap, List.flatMap_map]
  refine List.flatMap_congr fun e he => ?_
  have hscope : s.scopes.get? e.1 = some e.2 := (s.scopes.mem_entries_iff e.1 e.2).mp he
  have hnames : s.namesIn e.1 = e.2.entries.map Prod.fst := by
    rw [namesIn, hscope]
    rfl
  rw [hnames, List.map_map, List.map_map]
  refine List.map_congr_left fun c hc => ?_
  show (e.1, c.1, some c.2) = (e.1, c.1, s.get? e.1 c.1)
  rw [get?, hscope, Option.bind_some, (e.2.mem_entries_iff c.1 c.2).mp hc]

/-- The listed properties are the names of each scope, scope by scope. -/
theorem listed_eq (s : PropertySet) :
    s.listed = s.scopes.keys.flatMap fun scope => (s.namesIn scope).map (PropertyRef.mk scope) := by
  have h := congrArg (List.map fun c => PropertyRef.mk c.1 c.2.1) s.map_toList
  rw [List.map_map, List.map_flatMap] at h
  refine h.trans (List.flatMap_congr fun scope _ => ?_)
  rw [List.map_map]
  rfl

theorem mem_listed_iff (s : PropertySet) (p : PropertyRef) :
    p ∈ s.listed ↔ p.scope ∈ s.scopes.keys ∧ p.name ∈ s.namesIn p.scope := by
  rw [listed_eq, List.mem_flatMap]
  constructor
  · rintro ⟨scope, hscope, hp⟩
    obtain ⟨name, hname, rfl⟩ := List.mem_map.mp hp
    exact ⟨hscope, hname⟩
  · rintro ⟨hscope, hname⟩
    exact ⟨p.scope, hscope, List.mem_map.mpr ⟨p.name, hname, rfl⟩⟩

/-- No property is listed twice. -/
theorem nodup_listed (s : PropertySet) : s.listed.Nodup := by
  have hnames (scope : Scope) : (s.namesIn scope).Nodup := by
    rw [namesIn]
    cases s.scopes.get? scope with
    | none => exact List.nodup_nil
    | some values => exact values.distinctKeys
  rw [listed_eq, List.nodup_flatMap]
  refine ⟨fun scope _ => (hnames scope).map fun a b h => (PropertyRef.mk.inj h).2, ?_⟩
  refine List.Pairwise.imp (fun {scope scope'} hne => ?_) s.scopes.distinctKeys
  rw [Function.onFun, List.disjoint_left]
  -- the properties of different scopes are different
  intro p hp hp'
  obtain ⟨_, -, rfl⟩ := List.mem_map.mp hp
  obtain ⟨_, -, he⟩ := List.mem_map.mp hp'
  exact hne (PropertyRef.mk.inj he).1.symm

/-! ## Insertions -/

/-- A declaration is seen under its scope and name only. -/
theorem get?_insert (s : PropertySet) (scope scope' : Scope) (name name' value : String) :
    (s.insert scope name value).get? scope' name' =
      if scope' = scope ∧ name' = name then some value else s.get? scope' name' := by
  rw [get?, insert, OrderedMap.get?_insert]
  by_cases hs : scope' = scope
  · subst hs
    rw [if_pos rfl, Option.bind_some, OrderedMap.get?_insert]
    by_cases hn : name' = name
    · rw [if_pos hn, if_pos ⟨rfl, hn⟩]
    · rw [if_neg hn, if_neg fun h => hn h.2, get?]
      cases s.scopes.get? scope' with
      | none => rfl
      | some values => rfl
  · rw [if_neg hs, if_neg fun h => hs h.1, get?]

/-- The insertion of a property. -/
structure Insertion where
  scope : Scope
  name : String
  value : String
  deriving DecidableEq, Repr

/-- The property that is inserted. -/
def Insertion.property (c : Insertion) : PropertyRef :=
  ⟨c.scope, c.name⟩

/-- The set that some insertions make, one after the other. -/
def ofInsertions (made : List Insertion) : PropertySet :=
  made.foldl (fun s c => s.insert c.scope c.name c.value) .empty

/-- The last insertion of a property. -/
def lastInsertion? (made : List Insertion) (scope : Scope) (name : String) : Option Insertion :=
  (made.filter fun c => c.scope = scope ∧ c.name = name).getLast?

theorem scope_of_lastInsertion? {made : List Insertion} {scope : Scope} {name : String}
    {c : Insertion} (h : lastInsertion? made scope name = some c) : c.scope = scope :=
  (of_decide_eq_true (List.mem_filter.mp (List.mem_of_getLast? h)).2).1

theorem lastInsertion?_concat (made : List Insertion) (c : Insertion) (scope : Scope)
    (name : String) :
    lastInsertion? (made ++ [c]) scope name =
      if scope = c.scope ∧ name = c.name then some c else lastInsertion? made scope name := by
  rw [lastInsertion?, List.filter_append]
  by_cases hc : scope = c.scope ∧ name = c.name
  · have hlast : [c].filter (fun c => c.scope = scope ∧ c.name = name) = [c] :=
      List.filter_cons_of_pos (decide_eq_true ⟨hc.1.symm, hc.2.symm⟩)
    rw [if_pos hc, hlast, List.getLast?_concat]
  · have hother : [c].filter (fun c => c.scope = scope ∧ c.name = name) = [] :=
      List.filter_cons_of_neg fun h => hc ((of_decide_eq_true h).imp Eq.symm Eq.symm)
    rw [if_neg hc, hother, List.append_nil, lastInsertion?]

/-- A set tells of the insertions that were made: it has their scopes, and in each scope the names,
in the order of the first insertions, and the values of the last ones. -/
structure Tells (s : PropertySet) (made : List Insertion) : Prop where
  scopes : s.scopes.keys = distinct (made.map (·.scope))
  names : ∀ scope,
    s.namesIn scope = distinct ((made.filter (·.scope = scope)).map (·.name))
  get? : ∀ scope name, s.get? scope name = (lastInsertion? made scope name).map (·.value)

theorem tells_empty : empty.Tells [] where
  scopes := rfl
  names _ := rfl
  get? _ _ := rfl

variable {s : PropertySet} {made : List Insertion}

/-- **An insertion is told of, and nothing else changes.** -/
theorem Tells.insert (h : s.Tells made) (c : Insertion) :
    (s.insert c.scope c.name c.value).Tells (made ++ [c]) where
  scopes := by
    rw [List.map_append]
    exact OrderedMap.keys_insert_of_keys h.scopes c.scope _
  names scope := by
    rw [namesIn, PropertySet.insert, OrderedMap.get?_insert, List.filter_append, List.map_append]
    by_cases hc : scope = c.scope
    · -- the name joins those of its scope, which may have been without any
      subst hc
      have hnames : ((s.scopes.get? c.scope).getD .empty).keys =
          distinct ((made.filter (·.scope = c.scope)).map (·.name)) := by
        rw [← h.names, namesIn]
        cases s.scopes.get? c.scope <;> rfl
      have hnew : [c].filter (·.scope = c.scope) = [c] :=
        List.filter_cons_of_pos (decide_eq_true rfl)
      rw [if_pos rfl, hnew]
      exact OrderedMap.keys_insert_of_keys hnames c.name c.value
    · have hother : [c].filter (·.scope = scope) = [] :=
        List.filter_cons_of_neg fun h => hc (of_decide_eq_true h).symm
      rw [if_neg hc, hother]
      exact (h.names scope).trans (congrArg distinct (List.append_nil _).symm)
  get? scope name := by
    rw [get?_insert, lastInsertion?_concat, h.get?]
    split <;> rfl

/-- **After any number of insertions a set tells of all of them.** -/
theorem tells_ofInsertions (made : List Insertion) : (ofInsertions made).Tells made := by
  induction made using List.reverseRecOn with
  | nil => exact tells_empty
  | append_singleton made c ih =>
    rw [ofInsertions, List.foldl_append]
    exact ih.insert c

namespace Tells

/-- The listed properties are those that were inserted. -/
theorem mem_listed_iff (h : s.Tells made) (p : PropertyRef) :
    p ∈ s.listed ↔ p ∈ made.map Insertion.property := by
  rw [PropertySet.mem_listed_iff, h.scopes, h.names, mem_distinct, mem_distinct, List.mem_map,
    List.mem_map, List.mem_map]
  constructor
  · rintro ⟨-, c, hc, hname⟩
    obtain ⟨hmem, hscope⟩ := List.mem_filter.mp hc
    exact ⟨c, hmem, congrArg₂ PropertyRef.mk (of_decide_eq_true hscope) hname⟩
  · rintro ⟨c, hc, rfl⟩
    exact ⟨⟨c, hc, rfl⟩, c, List.mem_filter.mpr ⟨hc, decide_eq_true rfl⟩, rfl⟩

/-- A name stands for the last insertion in the scope, else for the last one in the project. -/
theorem locate?_eq (h : s.Tells made) (scope : Scope) (name : String) :
    s.locate? scope name =
      ((lastInsertion? made scope name).or (lastInsertion? made .root name)).map (·.scope) := by
  rw [locate?, h.get?, h.get?, Option.isSome_map, Option.isSome_map]
  cases hlocal : lastInsertion? made scope name with
  | some c =>
    rw [Option.isSome_some, if_pos rfl, Option.some_or, Option.map_some,
      scope_of_lastInsertion? hlocal]
  | none =>
    rw [Option.isSome_none, if_neg Bool.false_ne_true, Option.none_or]
    cases hroot : lastInsertion? made .root name with
    | some c =>
      rw [Option.isSome_some, if_pos rfl, Option.map_some, scope_of_lastInsertion? hroot]
    | none => rfl

/-- The size is the number of properties that were inserted. -/
theorem size_eq (h : s.Tells made) : s.size = (distinct (made.map Insertion.property)).length := by
  rw [← length_listed]
  refine ((List.perm_ext_iff_of_nodup s.nodup_listed (nodup_distinct _)).mpr fun p => ?_).length_eq
  rw [h.mem_listed_iff, mem_distinct]

end Tells

/-- **Insertions keep the first order and the last values.** After any insertions, the scopes are
listed in the order of their first insertions, and in each scope the names; every property that was
inserted is listed once, with the value of its last insertion, and they are counted by the size.
After every part of the insertions, from the first one on, a property has the value of its last
insertion so far, and a name is located where it was last inserted in the scope itself, or else in
the project. -/
theorem insertions_keep_first_order_and_last_values (made : List Insertion) :
    (ofInsertions made).toList.map (fun c => (c.1, c.2.1, some c.2.2)) =
        ((distinct (made.map (·.scope))).flatMap fun scope =>
          (distinct ((made.filter (·.scope = scope)).map (·.name))).map fun name =>
            (scope, name, (lastInsertion? made scope name).map (·.value))) ∧
      (ofInsertions made).listed.Nodup ∧
      (∀ p, p ∈ (ofInsertions made).listed ↔ p ∈ made.map Insertion.property) ∧
      (ofInsertions made).size = (distinct (made.map Insertion.property)).length ∧
      ∀ n scope name,
        (ofInsertions (made.take n)).get? scope name =
            (lastInsertion? (made.take n) scope name).map (·.value) ∧
          (ofInsertions (made.take n)).locate? scope name =
            ((lastInsertion? (made.take n) scope name).or
              (lastInsertion? (made.take n) .root name)).map (·.scope) := by
  have htells := tells_ofInsertions made
  refine ⟨?_, nodup_listed _, htells.mem_listed_iff, htells.size_eq, fun n scope name => ?_⟩
  · rw [map_toList, htells.scopes]
    refine List.flatMap_congr fun scope _ => ?_
    rw [htells.names]
    exact List.map_congr_left fun name _ => by rw [htells.get?]
  · have hpart := tells_ofInsertions (made.take n)
    exact ⟨hpart.get? scope name, hpart.locate?_eq scope name⟩

/-- A property that is inserted again keeps its place, also if others were inserted in between. -/
example : (ofInsertions [⟨.root, "v", "1"⟩, ⟨.profile "p", "v", "2"⟩, ⟨.root, "w", "3"⟩,
    ⟨.root, "v", "4"⟩]).toList =
      [(.root, "v", "4"), (.root, "w", "3"), (.profile "p", "v", "2")] := by
  decide

end PropertySet

end MavenUpgrade

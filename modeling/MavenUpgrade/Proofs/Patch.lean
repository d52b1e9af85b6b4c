import Mathlib
import MavenUpgrade.Patch
import MavenUpgrade.Proofs.Collection.Ordered

/-!
# The content of a patch

A patch is known by what it says of each property (`Patch.property?`) and of each declaration.
Setting a property changes what is said of this property only, the listed changes are what is
said, and a patch is empty exactly when it says nothing.
-/

namespace MavenUpgrade

/-! ## Maps listed by increasing key -/

namespace SortedMap

variable {α β : Type} [Ord α] [DecidableEq α] [Std.LawfulEqOrd α]

/-- A value is put under its key only. -/
theorem lookup_put (key k : α) (value : β) (entries : List (α × β)) :
    (put key value entries).lookup k = if k = key then some value else entries.lookup k := by
  induction entries with
  | nil => rw [put, OrderedMap.lookup_cons_entry]
  | cons e rest ih =>
    obtain ⟨k', v⟩ := e
    rw [put]
    cases hc : compare key k' with
    | lt => rw [OrderedMap.lookup_cons_entry]
    | eq =>
      obtain rfl := Std.LawfulEqOrd.eq_of_compare hc
      show List.lookup k ((key, value) :: rest) = _
      rw [OrderedMap.lookup_cons_entry, OrderedMap.lookup_cons_entry]
      split <;> rfl
    | gt =>
      show List.lookup k ((k', v) :: put key value rest) = _
      rw [OrderedMap.lookup_cons_entry, OrderedMap.lookup_cons_entry, ih]
      by_cases hk : k = k'
      · have hne : k ≠ key := by
          rintro rfl
          rw [hk, Std.ReflOrd.compare_self] at hc
          cases hc
        rw [if_pos hk, if_neg hne, if_pos hk]
      · rw [if_neg hk, if_neg hk]

variable [Std.TransOrd α]

/-- An insertion is seen under its key only. -/
theorem get?_insert (m : SortedMap α β) (key k : α) (value : β) :
    (m.insert key value).get? k = if k = key then some value else m.get? k :=
  lookup_put key k value m.entries

omit [DecidableEq α] [Std.LawfulEqOrd α] in
/-- An entry is what stands under its key: no key has two entries. -/
theorem nodup_keys (m : SortedMap α β) : (m.entries.map Prod.fst).Nodup := by
  rw [List.Nodup, List.pairwise_map]
  refine m.increasing.imp fun {x y} h e => ?_
  rw [e, Std.ReflOrd.compare_self] at h
  cases h

omit [Std.LawfulEqOrd α] in
/-- The entries are exactly the keys with their values. -/
theorem mem_entries_iff (m : SortedMap α β) (key : α) (value : β) :
    (key, value) ∈ m.entries ↔ m.get? key = some value :=
  mem_iff_lookup m.nodup_keys key value

end SortedMap

/-! ## What a patch says -/

namespace Patch

/-- The empty patch says nothing of any property. -/
theorem property?_empty (scope : Scope) (name : String) :
    Patch.empty.property? scope name = none := rfl

/-- Setting a property changes what is said of this property only. -/
theorem property?_setProperty (p : Patch) (scope s : Scope) (name n value : String) :
    (p.setProperty scope name value).property? s n =
      if s = scope ∧ n = name then some value else p.property? s n := by
  rw [property?, setProperty, SortedMap.get?_insert]
  by_cases hs : s = scope
  · subst hs
    rw [if_pos rfl, Option.bind_some, SortedMap.get?_insert]
    by_cases hn : n = name
    · rw [if_pos hn, if_pos ⟨rfl, hn⟩]
    · rw [if_neg hn, if_neg fun h => hn h.2, property?]
      cases p.properties.get? s with
      | none => rfl
      | some values => rfl
  · rw [if_neg hs, if_neg fun h => hs h.1, property?]

/-- The listed changes of properties are what the patch says of them. -/
theorem mem_propertyChanges_iff (p : Patch) (scope : Scope) (name value : String) :
    (scope, name, value) ∈ p.propertyChanges ↔ p.property? scope name = some value := by
  rw [propertyChanges, property?, List.mem_flatMap, Option.bind_eq_some_iff]
  constructor
  · rintro ⟨⟨s, values⟩, hs, hm⟩
    obtain ⟨⟨n, v⟩, hn, he⟩ := List.mem_map.mp hm
    obtain ⟨rfl, rfl, rfl⟩ : s = scope ∧ n = name ∧ v = value := by simpa using he
    exact ⟨values, (SortedMap.mem_entries_iff _ _ _).mp hs,
      (SortedMap.mem_entries_iff _ _ _).mp hn⟩
  · rintro ⟨values, hs, hn⟩
    refine ⟨(scope, values), (SortedMap.mem_entries_iff _ _ _).mpr hs, ?_⟩
    exact List.mem_map.mpr ⟨(name, value), (SortedMap.mem_entries_iff _ _ _).mpr hn, rfl⟩

/-- No property is changed twice. -/
theorem nodup_propertyChanges (p : Patch) :
    (p.propertyChanges.map fun c => (c.1, c.2.1)).Nodup := by
  have hscopes := p.properties.nodup_keys
  rw [List.Nodup, List.pairwise_map] at hscopes
  rw [propertyChanges, List.map_flatMap, List.Nodup, List.pairwise_flatMap]
  refine ⟨fun ⟨scope, values⟩ _ => ?_, hscopes.imp fun {e f} hne c hc c' hc' he => hne ?_⟩
  · have hnames := values.nodup_keys
    rw [List.Nodup, List.pairwise_map] at hnames
    rw [List.map_map, List.pairwise_map]
    exact hnames.imp fun hne he => hne (Prod.mk.inj he).2
  · -- the scope of a change is that of the values it stands among
    rw [List.map_map] at hc hc'
    obtain ⟨_, -, rfl⟩ := List.mem_map.mp hc
    obtain ⟨_, -, rfl⟩ := List.mem_map.mp hc'
    exact (Prod.mk.inj he).1

/-- The number of changed properties is the length of their list. -/
theorem propertyCount_eq (p : Patch) : p.propertyCount = p.propertyChanges.length := by
  have hfold (entries : List (Scope × SortedMap String String)) (n : Nat) :
      entries.foldl (fun n e => n + e.2.size) n
        = n + (entries.flatMap fun e => e.2.entries.map fun c => (e.1, c.1, c.2)).length := by
    induction entries generalizing n with
    | nil => rfl
    | cons e rest ih =>
      rw [List.foldl_cons, ih, List.flatMap_cons, List.length_append, List.length_map,
        Nat.add_assoc]
      rfl
  show p.properties.entries.foldl (fun n e => n + e.2.size) 0 =
    (p.properties.entries.flatMap fun e => e.2.entries.map fun c => (e.1, c.1, c.2)).length
  rw [hfold, Nat.zero_add]

/-- A patch is empty exactly when it names no declaration and says nothing of any property. -/
theorem isEmpty_iff (p : Patch) :
    p.isEmpty = true ↔ p.dependencies = [] ∧ ∀ scope name, p.property? scope name = none := by
  rw [isEmpty, size, propertyCount_eq, beq_iff_eq, Nat.add_eq_zero_iff, List.length_eq_zero_iff,
    List.length_eq_zero_iff, List.eq_nil_iff_forall_not_mem (l := p.propertyChanges)]
  refine and_congr_right fun _ => ⟨fun h scope name => ?_, fun h change hc => ?_⟩
  · cases hv : p.property? scope name with
    | none => rfl
    | some value => exact absurd ((p.mem_propertyChanges_iff scope name value).mpr hv) (h _)
  · obtain ⟨scope, name, value⟩ := change
    rw [mem_propertyChanges_iff, h] at hc
    cases hc

end Patch

end MavenUpgrade

/-!
# Maps that keep the order of first insertion

A finite map as the list of its entries. Inserting under a known key replaces the value and
keeps the place; a new key is placed last (`keys_insert`).
-/

namespace MavenUpgrade

/-- A finite map whose entries stand in the order in which their keys were first inserted. -/
structure OrderedMap (α β : Type) where
  entries : List (α × β)
  /-- No key has two entries. -/
  distinctKeys : (entries.map Prod.fst).Nodup

namespace OrderedMap

variable {α β : Type} [DecidableEq α]

instance [DecidableEq β] : DecidableEq (OrderedMap α β) := fun m n =>
  decidable_of_iff (m.entries = n.entries) (by cases m; cases n; simp)

/-- The entries after a value is put under a key. -/
def put (key : α) (value : β) : List (α × β) → List (α × β)
  | [] => [(key, value)]
  | (k, v) :: rest => if k = key then (k, value) :: rest else (k, v) :: put key value rest

theorem map_fst_put (key : α) (value : β) (entries : List (α × β)) :
    (put key value entries).map Prod.fst =
      if key ∈ entries.map Prod.fst then entries.map Prod.fst
      else entries.map Prod.fst ++ [key] := by
  induction entries with
  | nil => simp [put]
  | cons e rest ih =>
    obtain ⟨k, v⟩ := e
    by_cases h : k = key
    · simp [put, h]
    · have h' : key ≠ k := fun h'' => h h''.symm
      by_cases hm : key ∈ rest.map Prod.fst <;> simp_all [put]

theorem nodup_put (key : α) (value : β) {entries : List (α × β)}
    (h : (entries.map Prod.fst).Nodup) : ((put key value entries).map Prod.fst).Nodup := by
  rw [map_fst_put]
  split
  · exact h
  · next hk =>
    refine List.nodup_append.mpr ⟨h, by simp, fun a ha b hb e => hk ?_⟩
    rwa [← List.mem_singleton.mp hb, ← e]

/-- The map without entries. -/
def empty : OrderedMap α β := ⟨[], by simp⟩

/-- Puts a value under a key. -/
def insert (m : OrderedMap α β) (key : α) (value : β) : OrderedMap α β :=
  ⟨put key value m.entries, nodup_put key value m.distinctKeys⟩

/-- The value under a key. -/
def get? (m : OrderedMap α β) (key : α) : Option β :=
  m.entries.lookup key

/-- The keys in the order of their first insertion. -/
def keys (m : OrderedMap α β) : List α :=
  m.entries.map Prod.fst

/-- The number of keys. -/
def size (m : OrderedMap α β) : Nat :=
  m.entries.length

/-- A known key keeps its place, and a new one is placed last. -/
theorem keys_insert (m : OrderedMap α β) (key : α) (value : β) :
    (m.insert key value).keys = if key ∈ m.keys then m.keys else m.keys ++ [key] :=
  map_fst_put key value m.entries

theorem lookup_cons_entry (k k' : α) (v : β) (rest : List (α × β)) :
    List.lookup k ((k', v) :: rest) = if k = k' then some v else rest.lookup k := by
  by_cases h : k = k'
  · simp [h]
  · have hb : (k == k') = false := by simpa using h
    simp [List.lookup_cons, h, hb]

theorem lookup_put (key k : α) (value : β) (entries : List (α × β)) :
    (put key value entries).lookup k = if k = key then some value else entries.lookup k := by
  induction entries with
  | nil => simp [put, lookup_cons_entry]
  | cons e rest ih =>
    obtain ⟨k', v⟩ := e
    by_cases h : k' = key
    · subst h
      by_cases hk : k = k' <;> simp [put, lookup_cons_entry, hk]
    · by_cases hk : k = k'
      · subst hk
        simp [put, h]
      · simp [put, lookup_cons_entry, h, hk, ih]

/-- An insertion is seen under its key only. -/
theorem get?_insert (m : OrderedMap α β) (key k : α) (value : β) :
    (m.insert key value).get? k = if k = key then some value else m.get? k :=
  lookup_put key k value m.entries

end OrderedMap

end MavenUpgrade

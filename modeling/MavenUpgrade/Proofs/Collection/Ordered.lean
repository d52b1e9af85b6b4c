import Mathlib
import MavenUpgrade.Collection.OrderedMap
import MavenUpgrade.Proofs.Collection.First

/-!
# Keys and entries

In a list in which no key has two entries, the entries are the keys with the values that are found
under them (`mem_iff_lookup`). So a map that keeps the order of first insertion is known by its keys,
which stand in the order of their first occurrences among the inserted ones
(`OrderedMap.keys_insert_of_keys`), and by the values under them.
-/

namespace MavenUpgrade

variable {α β : Type} [DecidableEq α]

/-- An entry is a key with the value that is found under it, if no key has two entries. -/
theorem mem_iff_lookup {entries : List (α × β)} (h : (entries.map Prod.fst).Nodup) (key : α)
    (value : β) : (key, value) ∈ entries ↔ entries.lookup key = some value := by
  induction entries with
  | nil => exact iff_of_false List.not_mem_nil fun h => by cases h
  | cons e rest ih =>
    obtain ⟨k, v⟩ := e
    rw [List.map_cons, List.nodup_cons] at h
    rw [OrderedMap.lookup_cons_entry, List.mem_cons, ih h.2]
    by_cases hk : key = k
    · subst hk
      rw [if_pos rfl]
      constructor
      · rintro (he | he)
        · rw [(Prod.mk.inj he).2]
        · exact absurd (List.mem_map_of_mem ((ih h.2).mpr he)) h.1
      · intro he
        rw [Option.some.inj he]
        exact Or.inl rfl
    · rw [if_neg hk]
      exact or_iff_right fun he => hk (Prod.mk.inj he).1

namespace OrderedMap

/-- The entries are exactly the keys with their values. -/
theorem mem_entries_iff (m : OrderedMap α β) (key : α) (value : β) :
    (key, value) ∈ m.entries ↔ m.get? key = some value :=
  mem_iff_lookup m.distinctKeys key value

/-- **An insertion keeps the keys in the order of their first occurrences**, whatever value it puts
under its key. -/
theorem keys_insert_of_keys {m : OrderedMap α β} {inserted : List α}
    (h : m.keys = distinct inserted) (key : α) (value : β) :
    (m.insert key value).keys = distinct (inserted ++ [key]) := by
  rw [keys_insert, h, distinct, distinct, distinctBy_concat, List.map_id]
  exact if_congr mem_distinct rfl rfl

end OrderedMap

end MavenUpgrade

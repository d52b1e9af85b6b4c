/-!
# Maps listed by increasing key

A finite map as the list of its entries in strictly increasing order of their keys, so that two
maps with the same values are equal.
-/

namespace MavenUpgrade

/-- A finite map whose entries stand by increasing key. -/
structure SortedMap (α β : Type) [Ord α] where
  entries : List (α × β)
  increasing : entries.Pairwise fun x y => compare x.1 y.1 = .lt

namespace SortedMap

variable {α β : Type} [Ord α]

instance [DecidableEq α] [DecidableEq β] : DecidableEq (SortedMap α β) := fun m n =>
  decidable_of_iff (m.entries = n.entries) (by cases m; cases n; simp)

/-- The entries after a value is put under a key. -/
def put (key : α) (value : β) : List (α × β) → List (α × β)
  | [] => [(key, value)]
  | (k, v) :: rest =>
    match compare key k with
    | .lt => (key, value) :: (k, v) :: rest
    | .eq => (k, value) :: rest
    | .gt => (k, v) :: put key value rest

theorem fst_mem_put {key : α} {value : β} {entries : List (α × β)} {e : α × β}
    (h : e ∈ put key value entries) : e.1 = key ∨ ∃ d ∈ entries, d.1 = e.1 := by
  induction entries with
  | nil => simp_all [put]
  | cons d rest ih =>
    obtain ⟨k, v⟩ := d
    simp only [put] at h
    split at h
    · rcases List.mem_cons.mp h with rfl | h
      · exact .inl rfl
      · exact .inr ⟨e, h, rfl⟩
    · rcases List.mem_cons.mp h with rfl | h
      · exact .inr ⟨(k, v), List.mem_cons_self, rfl⟩
      · exact .inr ⟨e, List.mem_cons_of_mem _ h, rfl⟩
    · rcases List.mem_cons.mp h with rfl | h
      · exact .inr ⟨(k, v), List.mem_cons_self, rfl⟩
      · rcases ih h with h | ⟨d, hd, h⟩
        · exact .inl h
        · exact .inr ⟨d, List.mem_cons_of_mem _ hd, h⟩

theorem increasing_put [Std.TransOrd α] (key : α) (value : β) {entries : List (α × β)}
    (h : entries.Pairwise fun x y => compare x.1 y.1 = .lt) :
    (put key value entries).Pairwise fun x y => compare x.1 y.1 = .lt := by
  induction entries with
  | nil => simp [put]
  | cons d rest ih =>
    obtain ⟨k, v⟩ := d
    obtain ⟨hk, hr⟩ := List.pairwise_cons.mp h
    simp only [put]
    split
    · next hc =>
      refine List.pairwise_cons.mpr ⟨fun e he => ?_, h⟩
      rcases List.mem_cons.mp he with rfl | he
      · exact hc
      · exact Std.TransCmp.lt_trans hc (hk e he)
    · exact List.pairwise_cons.mpr ⟨hk, hr⟩
    · next hc =>
      refine List.pairwise_cons.mpr ⟨fun e he => ?_, ih hr⟩
      rcases fst_mem_put he with h | ⟨d, hd, h⟩
      · exact h ▸ Std.OrientedCmp.lt_of_gt hc
      · exact h ▸ hk d hd

/-- The map without entries. -/
def empty : SortedMap α β := ⟨[], by simp⟩

/-- Puts a value under a key. -/
def insert [Std.TransOrd α] (m : SortedMap α β) (key : α) (value : β) : SortedMap α β :=
  ⟨put key value m.entries, increasing_put key value m.increasing⟩

/-- The value under a key. -/
def get? [BEq α] (m : SortedMap α β) (key : α) : Option β :=
  m.entries.lookup key

/-- The number of keys. -/
def size (m : SortedMap α β) : Nat :=
  m.entries.length

/-- The map that later entries of a list have overwritten earlier ones in. -/
def ofList [Std.TransOrd α] (entries : List (α × β)) : SortedMap α β :=
  entries.foldl (fun m e => m.insert e.1 e.2) empty

end SortedMap

end MavenUpgrade

/-!
# First occurrences

A list without the elements whose key occurred before, each remaining element in its place.
-/

namespace MavenUpgrade

variable {α β : Type} [DecidableEq β]

/-- The elements of a list that are the first with their key. -/
def distinctBy (key : α → β) : List α → List α
  | [] => []
  | x :: xs => x :: (distinctBy key xs).filter fun y => key y ≠ key x

/-- The elements of a list in the order of their first occurrences. -/
def distinct (xs : List β) : List β :=
  distinctBy id xs

theorem mem_of_mem_distinctBy {key : α → β} {x : α} {xs : List α}
    (h : x ∈ distinctBy key xs) : x ∈ xs := by
  induction xs with
  | nil => simp [distinctBy] at h
  | cons y ys ih =>
    rcases List.mem_cons.mp h with rfl | h
    · exact List.mem_cons_self
    · exact List.mem_cons_of_mem _ (ih (List.mem_filter.mp h).1)

/-- No key occurs twice. -/
theorem nodup_map_distinctBy (key : α → β) (xs : List α) :
    ((distinctBy key xs).map key).Nodup := by
  induction xs with
  | nil => simp [distinctBy]
  | cons y ys ih =>
    rw [distinctBy, List.map_cons, List.nodup_cons]
    refine ⟨fun h => ?_, (ih.sublist (List.filter_sublist.map key))⟩
    obtain ⟨x, hx, he⟩ := List.mem_map.mp h
    simpa [he] using (List.mem_filter.mp hx).2

@[simp] theorem mem_distinct {x : β} {xs : List β} : x ∈ distinct xs ↔ x ∈ xs := by
  refine ⟨mem_of_mem_distinctBy, fun h => ?_⟩
  induction xs with
  | nil => simp at h
  | cons y ys ih =>
    by_cases hxy : x = y
    · exact hxy ▸ List.mem_cons_self
    · have hx := ih ((List.mem_cons.mp h).resolve_left hxy)
      exact List.mem_cons_of_mem _ (List.mem_filter.mpr ⟨hx, by simpa using hxy⟩)

theorem nodup_distinct (xs : List β) : (distinct xs).Nodup := by
  simpa [distinct] using nodup_map_distinctBy id xs

end MavenUpgrade

import Mathlib

/-!
# Sorting and choosing

Sorting by merging puts the elements in the same order as inserting them one by one, also where
elements that are alike remain apart (`mergeSort_eq_insertionSort`). Insertion follows the list, so
it is the form to argue about, and to compute with. An element that is chosen from a list by going
through it is an element of the list (`foldl_mem`).
-/

namespace MavenUpgrade

variable {α : Type}

/-- An element is inserted behind those that have to come before it. -/
theorem orderedInsert_append (le : α → α → Bool) (a : α) (before after : List α)
    (hb : ∀ b ∈ before, le a b = false) (ha : ∀ b ∈ after, le a b = true) :
    (before ++ after).orderedInsert (le · · = true) a = before ++ a :: after := by
  induction before with
  | nil =>
    cases after with
    | nil => rfl
    | cons b after =>
      show List.orderedInsert _ a (b :: after) = a :: b :: after
      rw [List.orderedInsert, if_pos (ha b List.mem_cons_self)]
  | cons b before ih =>
    have hab : ¬ le a b = true := by
      rw [hb b List.mem_cons_self]
      decide
    show List.orderedInsert _ a (b :: (before ++ after)) = b :: (before ++ a :: after)
    rw [List.orderedInsert, if_neg hab, ih fun c hc => hb c (List.mem_cons_of_mem b hc)]

/-- Sorting by merging is sorting by insertion: both are stable. -/
theorem mergeSort_eq_insertionSort (le : α → α → Bool)
    (htrans : ∀ a b c, le a b = true → le b c = true → le a c = true)
    (htotal : ∀ a b, (le a b || le b a) = true) (xs : List α) :
    xs.mergeSort le = xs.insertionSort (le · · = true) := by
  induction xs with
  | nil => exact List.mergeSort_nil
  | cons a xs ih =>
    -- the rest of the list is sorted around the place of its head
    obtain ⟨before, after, hcons, hrest, hbefore⟩ := List.mergeSort_cons htrans htotal a xs
    have hsorted := List.pairwise_mergeSort htrans htotal (a :: xs)
    rw [hcons, List.pairwise_append] at hsorted
    rw [List.insertionSort_cons, ← ih, hrest, hcons, orderedInsert_append le a before after]
    · intro b hb
      simpa using hbefore b hb
    · exact (List.pairwise_cons.mp hsorted.2.1).1

/-- An element that is kept or replaced along a list is the first one or one of the list. -/
theorem foldl_mem {f : α → α → α} (hf : ∀ a b, f a b = a ∨ f a b = b) (a : α) (xs : List α) :
    xs.foldl f a ∈ a :: xs := by
  induction xs generalizing a with
  | nil => exact List.mem_singleton_self a
  | cons x xs ih =>
    rw [List.foldl_cons]
    rcases List.mem_cons.mp (ih (f a x)) with he | hm
    · rw [he]
      rcases hf a x with hx | hx
      · rw [hx]
        exact List.mem_cons_self
      · rw [hx]
        exact List.mem_cons_of_mem _ List.mem_cons_self
    · exact List.mem_cons_of_mem _ (List.mem_cons_of_mem _ hm)

end MavenUpgrade

import Mathlib
import MavenUpgrade.Collection.Distinct

/-!
# The places of first occurrences

Which elements of a list are kept when each key counts once, told by their places: those before
which no element that counts has the same key (`distinctBy_filter`). Taking up one element after
the other keeps an element exactly when its key was not met before (`distinctBy_concat`).
-/

namespace MavenUpgrade

variable {α β : Type} [DecidableEq β]

/-! ## First places -/

/-- The element at a place counts, and no element before it that counts has the same key. -/
def IsFirstPlace (counts : α → Bool) (key : α → β) (xs : List α) (i : Fin xs.length) : Prop :=
  counts (xs.get i) = true ∧
    ∀ j < i, counts (xs.get j) = true → key (xs.get j) ≠ key (xs.get i)

instance (counts : α → Bool) (key : α → β) (xs : List α) (i : Fin xs.length) :
    Decidable (IsFirstPlace counts key xs i) :=
  inferInstanceAs (Decidable (_ ∧ _))

/-- The first places of a list, in increasing order. -/
def firstPlaces (counts : α → Bool) (key : α → β) (xs : List α) : List (Fin xs.length) :=
  (List.finRange xs.length).filter fun i => IsFirstPlace counts key xs i

variable {counts : α → Bool} {key : α → β} {x : α} {xs : List α}

omit [DecidableEq β] in
theorem isFirstPlace_zero :
    IsFirstPlace counts key (x :: xs) (0 : Fin (xs.length + 1)) ↔ counts x = true :=
  and_iff_left fun j hj => absurd hj (Fin.not_lt_zero j)

omit [DecidableEq β] in
/-- A place behind the front is a first one if it is one of the rest, unless the element has the key
of the front. -/
theorem isFirstPlace_succ {i : Fin xs.length} :
    IsFirstPlace counts key (x :: xs) i.succ ↔
      (counts x = true → key x ≠ key (xs.get i)) ∧ IsFirstPlace counts key xs i := by
  rw [IsFirstPlace, IsFirstPlace, and_left_comm]
  refine and_congr_right fun _ => ?_
  constructor
  · intro h
    exact ⟨h (0 : Fin (xs.length + 1)) i.succ_pos,
      fun j hj => h j.succ (Fin.succ_lt_succ_iff.mpr hj)⟩
  · rintro ⟨hfront, hrest⟩ j hj
    cases j using Fin.cases with
    | zero => exact hfront
    | succ j => exact hrest j (Fin.succ_lt_succ_iff.mp hj)

/-- The first places of a list with a front are the front, if it counts, and those of the rest whose
element does not have the key of the front. -/
theorem map_get_firstPlaces_cons :
    (firstPlaces counts key (x :: xs)).map (x :: xs).get =
      (if counts x = true then [x] else []) ++
        ((firstPlaces counts key xs).map xs.get).filter
          fun y => counts x = true → key x ≠ key y := by
  have hrest : ((List.finRange xs.length).filter fun i =>
      IsFirstPlace counts key (x :: xs) i.succ).map xs.get =
        ((firstPlaces counts key xs).map xs.get).filter
          fun y => counts x = true → key x ≠ key y := by
    rw [firstPlaces, List.filter_map, List.filter_filter]
    refine congrArg (List.map xs.get) (List.filter_congr fun i _ => ?_)
    exact (decide_eq_decide.mpr isFirstPlace_succ).trans (Bool.decide_and _ _)
  rw [← hrest]
  show ((List.finRange (xs.length + 1)).filter _).map _ = _
  rw [List.finRange_succ, List.filter_cons, List.filter_map]
  by_cases hx : counts x = true
  · rw [if_pos hx, if_pos (decide_eq_true (isFirstPlace_zero.mpr hx)), List.map_cons,
      List.map_map]
    rfl
  · rw [if_neg hx, if_neg fun h => hx (isFirstPlace_zero.mp (of_decide_eq_true h)),
      List.map_map]
    rfl

/-- **The first elements with their keys, among those that count, are those at the first places.** -/
theorem distinctBy_filter (counts : α → Bool) (key : α → β) (xs : List α) :
    distinctBy key (xs.filter counts) = (firstPlaces counts key xs).map xs.get := by
  induction xs with
  | nil => rfl
  | cons x xs ih =>
    rw [map_get_firstPlaces_cons, ← ih]
    by_cases hx : counts x = true
    · rw [List.filter_cons_of_pos hx, distinctBy, if_pos hx]
      refine congrArg (x :: ·) (List.filter_congr fun y _ => decide_eq_decide.mpr ?_)
      exact ⟨fun h _ => h.symm, fun h => (h hx).symm⟩
    · rw [List.filter_cons_of_neg hx, if_neg hx, List.nil_append,
        List.filter_eq_self.mpr fun y _ => decide_eq_true fun h => absurd h hx]

/-! ## First elements -/

/-- The first elements with their keys are those of the list that is mapped. -/
theorem distinctBy_map {γ : Type} (key : α → β) (f : γ → α) (xs : List γ) :
    distinctBy key (xs.map f) = (distinctBy (key ∘ f) xs).map f := by
  induction xs with
  | nil => rfl
  | cons x xs ih =>
    rw [List.map_cons, distinctBy, distinctBy, List.map_cons, ih, List.filter_map]
    rfl

/-- The first element with its key is the first one that is found. -/
theorem find?_of_mem_distinctBy (h : x ∈ distinctBy key xs) :
    xs.find? (fun y => key y = key x) = some x := by
  induction xs with
  | nil => cases h
  | cons y ys ih =>
    rcases List.mem_cons.mp h with rfl | h
    · rw [List.find?_cons, decide_eq_true rfl]
    · obtain ⟨hx, hne⟩ := List.mem_filter.mp h
      have hne' : key y ≠ key x := fun he => of_decide_eq_true hne he.symm
      rw [List.find?_cons, decide_eq_false hne']
      exact ih hx

/-- An element that is taken up last is kept exactly when its key was not met before. -/
theorem distinctBy_concat (key : α → β) (xs : List α) (x : α) :
    distinctBy key (xs ++ [x]) =
      if key x ∈ xs.map key then distinctBy key xs else distinctBy key xs ++ [x] := by
  induction xs with
  | nil => rfl
  | cons y ys ih =>
    rw [List.cons_append, distinctBy, ih, distinctBy, List.map_cons]
    by_cases hys : key x ∈ ys.map key
    · rw [if_pos hys, if_pos (List.mem_cons_of_mem _ hys)]
    · rw [if_neg hys, List.filter_append]
      by_cases hy : key x = key y
      · rw [if_pos (hy ▸ List.mem_cons_self), List.filter_singleton]
        simp [hy]
      · rw [if_neg fun h => (List.mem_cons.mp h).elim hy hys, List.filter_singleton]
        simp [hy]

end MavenUpgrade

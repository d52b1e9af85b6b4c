import Mathlib
import MavenUpgrade.Proofs.Range.Notation
import MavenUpgrade.Proofs.Version.Latest

/-!
# What a range accepts

A range accepts a version according to how the version compares with its bounds, so that versions
which compare alike with them are accepted alike (`VersionRange.accepts_congr`). A range that is
read has an interval; if it mentions no bound at all, it accepts every version
(`VersionRange.accepts_of_lowestBound?`).
-/

namespace MavenUpgrade

/-- Versions that compare alike with the bounds of an interval lie alike in it. -/
theorem Interval.accepts_congr {i : Interval} {v w : String}
    (hlower : ∀ b ∈ i.lower, Version.compareText v b.version = Version.compareText w b.version)
    (hupper : ∀ b ∈ i.upper, Version.compareText v b.version = Version.compareText w b.version) :
    i.accepts v = i.accepts w := by
  have hside {bound? : Option Bound} {test : Bound → String → Bool}
      (h : ∀ b ∈ bound?, test b v = test b w) :
      bound?.all (test · v) = bound?.all (test · w) := by
    cases bound? with
    | none => rfl
    | some b => exact h b rfl
  have hbelow : i.lower.all (·.belowVersion v) = i.lower.all (·.belowVersion w) :=
    hside fun b hb => by rw [Bound.belowVersion, Bound.belowVersion, hlower b hb]
  have habove : i.upper.all (·.aboveVersion v) = i.upper.all (·.aboveVersion w) :=
    hside fun b hb => by rw [Bound.aboveVersion, Bound.aboveVersion, hupper b hb]
  rw [accepts, accepts, hbelow, habove]

namespace VersionRange

/-! ## Bounds -/

/-- The versions that the bounds of a range mention. -/
def bounds (r : VersionRange) : List String :=
  r.intervals.flatMap fun i => (i.lower.toList ++ i.upper.toList).map (·.version)

theorem mem_bounds {r : VersionRange} {i : Interval} {b : Bound} (hi : i ∈ r.intervals)
    (hb : b ∈ i.lower ∨ b ∈ i.upper) : b.version ∈ r.bounds := by
  refine List.mem_flatMap.mpr ⟨i, hi, List.mem_map_of_mem (List.mem_append.mpr ?_)⟩
  rwa [Option.mem_toList, Option.mem_toList]

/-- The lowest bound is one of the bounds. -/
theorem mem_bounds_of_lowestBound? {r : VersionRange} {version : String}
    (h : r.lowestBound? = some version) : version ∈ r.bounds := by
  rcases Option.or_eq_some_iff.mp h with h | ⟨-, h⟩
  · obtain ⟨i, hi, hlower⟩ := List.mem_filterMap.mp (Version.mem_of_earliest? h)
    obtain ⟨b, hb, rfl⟩ := Option.map_eq_some_iff.mp hlower
    exact mem_bounds hi (Or.inl hb)
  · obtain ⟨i, hi, hupper⟩ := List.mem_filterMap.mp (Version.mem_of_earliest? h)
    obtain ⟨b, hb, rfl⟩ := Option.map_eq_some_iff.mp hupper
    exact mem_bounds hi (Or.inr hb)

/-- **Versions that compare alike with the bounds of a range are accepted alike.** -/
theorem accepts_congr {r : VersionRange} {v w : String}
    (h : ∀ b ∈ r.bounds, Version.compareText v b = Version.compareText w b) :
    r.accepts v = r.accepts w := by
  have hinterval (i : Interval) (hi : i ∈ r.intervals) : i.accepts v = i.accepts w :=
    Interval.accepts_congr (fun _ hb => h _ (mem_bounds hi (Or.inl hb)))
      fun _ hb => h _ (mem_bounds hi (Or.inr hb))
  rw [accepts, accepts, Bool.eq_iff_iff, List.any_eq_true, List.any_eq_true]
  exact exists_congr fun i => and_congr_right fun hi => by rw [hinterval i hi]

/-- Versions that are equally high are accepted alike, where the order is transitive on them and on
the bounds. -/
theorem accepts_of_compareText_eq {r : VersionRange} {vs : List String}
    (h : Version.IsOrdered (vs ++ r.bounds)) {v w : String} (hv : v ∈ vs) (hw : w ∈ vs)
    (heq : Version.compareText v w = .eq) : r.accepts v = r.accepts w :=
  accepts_congr fun _ hb => Version.compareText_congr h (List.mem_append_left _ hv)
    (List.mem_append_left _ hw) (List.mem_append_right _ hb) heq

/-! ## Ranges that are read -/

/-- A range that is read has an interval. -/
theorem intervals_ne_nil_of_read {text : String} {r : VersionRange} (h : read text = .ok r) :
    r.intervals ≠ [] :=
  (isWritten_of_read h).2.ne_nil

/-- A range that mentions no bound accepts every version. -/
theorem accepts_of_lowestBound? {r : VersionRange} (hr : r.intervals ≠ [])
    (h : r.lowestBound? = none) (version : String) : r.accepts version = true := by
  obtain ⟨hlower, hupper⟩ := Option.or_eq_none_iff.mp h
  obtain ⟨i, hi⟩ := List.exists_mem_of_ne_nil _ hr
  have hunbounded {bound? : Interval → Option Bound}
      (hnone : Version.earliest? (r.intervals.filterMap fun i => (bound? i).map (·.version)) =
        none) : bound? i = none := by
    have hnil := Version.earliest?_eq_none_iff.mp hnone
    exact Option.map_eq_none_iff.mp (List.filterMap_eq_nil_iff.mp hnil i hi)
  have haccepts : i.accepts version = true := by
    rw [Interval.accepts, hunbounded hlower, hunbounded hupper]
    rfl
  exact List.any_eq_true.mpr ⟨i, hi, haccepts⟩

end VersionRange

end MavenUpgrade

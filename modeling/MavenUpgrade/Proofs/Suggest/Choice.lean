import Mathlib
import MavenUpgrade.Proofs.Range.Acceptance
import MavenUpgrade.Suggest.Choice

/-!
# What is suggested

A version may be suggested for a specifier if it is available and, where the major component has to
stay, has that of a reference (`Specifier.IsAllowed`). For a version that is the version itself, for
a range a version that it accepts or a bound (`Specifier.IsReference`); a range that is read always
has one, so the restriction is never dropped (`Specifier.suggest?_keeps_major`).

Where the order is transitive, a version gives way to an allowed version that none exceeds
(`Specifier.version_gives_way_to_latest`), and so does a range that does not accept such a version
(`Specifier.range_gives_way_to_latest`).
-/

namespace MavenUpgrade.Specifier

/-! ## Allowed versions -/

/-- The version whose major component counts as that of a specifier. -/
def reference? (current : Specifier) (available : List String) : Option String :=
  match current with
  | concrete version => some version
  | range r => rangeReference? r available

/-- A version may be suggested if it is available and, where the major component has to stay, has
that of the reference. -/
def IsAllowed (current : Specifier) (available : List String) (keepMajor : Bool) (v : String) :
    Prop :=
  v ∈ available ∧ (keepMajor = true →
    ∃ reference ∈ current.reference? available, isMajorBump reference v = false)

/-- The versions that may serve as the reference of a specifier: its own version; for a range, the
latest available version that it accepts, or a bound where it accepts none. -/
inductive IsReference (available : List String) : Specifier → String → Prop where
  | version (v : String) : IsReference available (concrete v) v
  | accepted {r : VersionRange} {v : String} (hv : v ∈ available) (haccepts : r.accepts v = true)
      (hlatest : Version.latest? (available.filter r.accepts) = some v) :
      IsReference available (range r) v
  | bound {r : VersionRange} {v : String} (hnone : ∀ w ∈ available, r.accepts w = false)
      (hv : v ∈ r.bounds) : IsReference available (range r) v

theorem isReference_of_reference? {current : Specifier} {available : List String}
    {reference : String} (h : current.reference? available = some reference) :
    IsReference available current reference := by
  cases current with
  | concrete version =>
    obtain rfl := Option.some.inj h
    exact .version version
  | range r =>
    rcases Option.or_eq_some_iff.mp h with h | ⟨hnone, h⟩
    · obtain ⟨hv, haccepts⟩ := List.mem_filter.mp (Version.mem_of_latest? h)
      exact .accepted hv haccepts h
    · have hnil := List.filter_eq_nil_iff.mp (Version.latest?_eq_none_iff.mp hnone)
      exact .bound (fun w hw => Bool.eq_false_iff.mpr (hnil w hw))
        (VersionRange.mem_bounds_of_lowestBound? h)

theorem candidates_of_not_keepMajor (current : Specifier) (available : List String) :
    current.candidates available false = available := by
  cases current with
  | concrete version => rfl
  | range r =>
    unfold candidates
    dsimp only
    cases rangeReference? r available <;> rfl

theorem candidates_of_reference? {current : Specifier} {available : List String}
    {reference : String} (h : current.reference? available = some reference) :
    current.candidates available true = available.filter fun v => !isMajorBump reference v := by
  cases current with
  | concrete version =>
    obtain rfl := Option.some.inj h
    rfl
  | range r =>
    have hr : rangeReference? r available = some reference := h
    unfold candidates
    dsimp only
    rw [hr]

theorem mem_of_mem_candidates {current : Specifier} {available : List String} {keepMajor : Bool}
    {v : String} (h : v ∈ current.candidates available keepMajor) : v ∈ available := by
  unfold candidates at h
  dsimp only at h
  split at h
  · exact List.mem_of_mem_filter h
  · exact h

/-- A range that is read has an interval. -/
theorem intervals_ne_nil_of_read {text : String} {r : VersionRange}
    (h : read text = .ok (range r)) : r.intervals ≠ [] := by
  unfold read at h
  dsimp only at h
  split at h
  · cases h
  · split at h
    · cases hr : VersionRange.read (Text.trimmed text) with
      | error fault =>
        rw [hr] at h
        cases h
      | ok r' =>
        rw [hr] at h
        obtain rfl := range.inj (Except.ok.inj h)
        exact VersionRange.intervals_ne_nil_of_read hr
    · cases h

/-- Where there are versions, one of them or a bound counts as the reference. -/
theorem isSome_reference? {current : Specifier} {available : List String}
    (hranges : ∀ r, current = range r → r.intervals ≠ []) (ha : available ≠ []) :
    (current.reference? available).isSome = true := by
  cases current with
  | concrete version => rfl
  | range r =>
    show (rangeReference? r available).isSome = true
    rw [rangeReference?, Option.isSome_or, Bool.or_eq_true]
    cases hb : r.lowestBound? with
    | some bound => exact Or.inr rfl
    | none =>
      -- the range accepts all that is available
      left
      rw [Option.isSome_iff_ne_none, ne_eq, Version.latest?_eq_none_iff]
      obtain ⟨v, hv⟩ := List.exists_mem_of_ne_nil _ ha
      exact List.ne_nil_of_mem (List.mem_filter.mpr
        ⟨hv, VersionRange.accepts_of_lowestBound? (hranges r rfl) hb v⟩)

/-- The candidates are the allowed versions. -/
theorem mem_candidates_iff {current : Specifier} {available : List String} {keepMajor : Bool}
    (hranges : ∀ r, current = range r → r.intervals ≠ []) {v : String} :
    v ∈ current.candidates available keepMajor ↔ current.IsAllowed available keepMajor v := by
  rw [IsAllowed]
  cases keepMajor with
  | false =>
    rw [candidates_of_not_keepMajor]
    exact (and_iff_left nofun).symm
  | true =>
    by_cases ha : v ∈ available
    · obtain ⟨reference, hr⟩ :=
        Option.isSome_iff_exists.mp (isSome_reference? hranges (List.ne_nil_of_mem ha))
      rw [candidates_of_reference? hr, List.mem_filter, hr]
      simp
    · exact iff_of_false (fun h => ha (mem_of_mem_candidates h)) fun h => ha h.1

/-- A candidate that no candidate exceeds is an allowed version that none exceeds. -/
theorem isLatest_candidates_iff {current : Specifier} {available : List String} {keepMajor : Bool}
    (hranges : ∀ r, current = range r → r.intervals ≠ []) {best : String} :
    Version.IsLatest (current.candidates available keepMajor) best ↔
      current.IsAllowed available keepMajor best ∧
        ∀ v, current.IsAllowed available keepMajor v → Version.compareText v best ≠ .gt := by
  simp only [← mem_candidates_iff hranges]
  exact ⟨fun h => ⟨h.mem, h.not_gt⟩, fun h => ⟨h.1, h.2⟩⟩

theorem candidates_eq_nil_iff {current : Specifier} {available : List String} {keepMajor : Bool} :
    current.candidates available keepMajor = [] ↔ current.suggest? available keepMajor = none := by
  rw [suggest?, Option.map_eq_none_iff, Version.latest?_eq_none_iff]

/-- Nothing is suggested exactly where no version is allowed. -/
theorem suggest?_eq_none_iff {current : Specifier} {available : List String} {keepMajor : Bool}
    (hranges : ∀ r, current = range r → r.intervals ≠ []) :
    current.suggest? available keepMajor = none ↔
      ∀ v, ¬ current.IsAllowed available keepMajor v := by
  rw [← candidates_eq_nil_iff, List.eq_nil_iff_forall_not_mem]
  exact forall_congr' fun v => not_congr (mem_candidates_iff hranges)

/-- A version gives way to newer ones, a range to those that it does not accept. -/
def GivesWayTo : Specifier → String → Prop
  | concrete version, best => Version.compareText best version = .gt
  | range r, best => r.accepts best = false

/-- What is suggested is in use already and does not give way to the latest candidate, or it is the
latest candidate. -/
theorem exists_latest?_of_suggest? {current suggested : Specifier} {available : List String}
    {keepMajor : Bool} (h : current.suggest? available keepMajor = some suggested) :
    ∃ best, Version.latest? (current.candidates available keepMajor) = some best ∧
      (suggested = current ∧ ¬ current.GivesWayTo best ∨
        suggested = concrete best ∧ current.GivesWayTo best) := by
  obtain ⟨best, hbest, hs⟩ := Option.map_eq_some_iff.mp h
  refine ⟨best, hbest, ?_⟩
  cases current with
  | concrete version =>
    dsimp only at hs
    split at hs
    · next hgt => exact Or.inr ⟨hs.symm, hgt⟩
    · next hgt => exact Or.inl ⟨hs.symm, hgt⟩
  | range r =>
    dsimp only at hs
    split at hs
    · next haccepts => exact Or.inl ⟨hs.symm, ne_false_of_eq_true haccepts⟩
    · next haccepts => exact Or.inr ⟨hs.symm, Bool.eq_false_iff.mpr haccepts⟩

/-- What is suggested is in use already, or a version that is available. -/
theorem eq_or_exists_of_suggest? {current suggested : Specifier} {available : List String}
    {keepMajor : Bool} (h : current.suggest? available keepMajor = some suggested) :
    suggested = current ∨ ∃ best ∈ available, suggested = concrete best := by
  obtain ⟨best, hbest, ⟨hs, -⟩ | ⟨hs, -⟩⟩ := exists_latest?_of_suggest? h
  · exact Or.inl hs
  · exact Or.inr ⟨best, mem_of_mem_candidates (Version.mem_of_latest? hbest), hs⟩

/-! ## Suggestions for versions -/

/-- A version gives way to the later one of the latest candidate and itself. -/
theorem suggest?_concrete (version : String) (available : List String) (keepMajor : Bool) :
    (concrete version).suggest? available keepMajor =
      (Version.latest? ((concrete version).candidates available keepMajor)).map fun best =>
        concrete (Version.later best version) := by
  refine Option.map_congr fun best _ => ?_
  show (if Version.compareText best version = .gt then concrete best else concrete version) = _
  rw [Version.later, apply_ite concrete]

/-- What is suggested for a version is not exceeded by the version and the candidates. -/
theorem isLatest_of_suggest? {version : String} {available : List String} {keepMajor : Bool}
    (h : Version.IsOrdered (version :: available)) {s : Specifier}
    (hs : (concrete version).suggest? available keepMajor = some s) :
    Version.IsLatest (version :: (concrete version).candidates available keepMajor) s.text := by
  rw [suggest?_concrete] at hs
  obtain ⟨best, hbest, rfl⟩ := Option.map_eq_some_iff.mp hs
  have hordered :
      Version.IsOrdered (version :: (concrete version).candidates available keepMajor) :=
    h.mono (List.cons_subset_cons version fun _ hv => mem_of_mem_candidates hv)
  have hlatest := Version.isLatest_of_latest? (hordered.mono (List.subset_cons_self _ _)) hbest
  rw [text]
  exact hlatest.later hordered

/-- The candidates for a version do not depend on the order in which versions are available. -/
theorem candidates_perm (version : String) {available others : List String} (keepMajor : Bool)
    (h : available.Perm others) :
    ((concrete version).candidates available keepMajor).Perm
      ((concrete version).candidates others keepMajor) := by
  cases keepMajor with
  | false => exact h
  | true => exact h.filter _

/-- Available versions in another order give a suggestion that is equally high. -/
theorem suggest?_perm {version : String} {available others : List String} {keepMajor : Bool}
    (h : Version.IsOrdered (version :: available)) (hperm : available.Perm others) :
    Option.Rel (fun s t => Version.compareText s.text t.text = .eq)
      ((concrete version).suggest? available keepMajor)
      ((concrete version).suggest? others keepMajor) := by
  have hcandidates := candidates_perm version keepMajor hperm
  cases hs : (concrete version).suggest? available keepMajor with
  | none =>
    rw [candidates_eq_nil_iff.mpr hs, List.nil_perm, candidates_eq_nil_iff] at hcandidates
    rw [hcandidates]
    exact .none
  | some s =>
    cases ht : (concrete version).suggest? others keepMajor with
    | none =>
      rw [candidates_eq_nil_iff.mpr ht, List.perm_nil, candidates_eq_nil_iff, hs] at hcandidates
      cases hcandidates
    | some t =>
      have hothers : Version.IsOrdered (version :: others) :=
        h.mono ((hperm.cons version).symm.subset)
      have hlatest := (isLatest_of_suggest? h hs).of_perm (hcandidates.cons version)
      exact .some (hlatest.compareText_eq (isLatest_of_suggest? hothers ht))

/-- **A version gives way to an allowed version that is newer.** Nothing is suggested for it exactly
where no version is allowed. Where the order is transitive, no allowed version exceeds what is
suggested, and the order in which the versions are available does not matter. -/
theorem version_gives_way_to_latest (version : String) (available : List String)
    (keepMajor : Bool) :
    ((concrete version).suggest? available keepMajor = none ↔
        ∀ v, ¬ (concrete version).IsAllowed available keepMajor v) ∧
      (∀ s, (concrete version).suggest? available keepMajor = some s →
        s = concrete version ∨ ∃ best, (concrete version).IsAllowed available keepMajor best ∧
          Version.compareText best version = .gt ∧ s = concrete best) ∧
      (Version.IsOrdered (version :: available) →
        (∀ s, (concrete version).suggest? available keepMajor = some s →
          ∀ v, (concrete version).IsAllowed available keepMajor v →
            Version.compareText v s.text ≠ .gt) ∧
        ∀ others, available.Perm others →
          Option.Rel (fun s t => Version.compareText s.text t.text = .eq)
            ((concrete version).suggest? available keepMajor)
            ((concrete version).suggest? others keepMajor)) := by
  have hranges : ∀ r, concrete version = range r → r.intervals ≠ [] := nofun
  refine ⟨suggest?_eq_none_iff hranges, fun s hs => ?_, fun hordered => ⟨fun s hs v hv => ?_, ?_⟩⟩
  · obtain ⟨best, hbest, ⟨hs, -⟩ | ⟨hs, hgt⟩⟩ := exists_latest?_of_suggest? hs
    · exact Or.inl hs
    · have hmem := Version.mem_of_latest? hbest
      exact Or.inr ⟨best, (mem_candidates_iff hranges).mp hmem, hgt, hs⟩
  · exact (isLatest_of_suggest? hordered hs).not_gt v
      (List.mem_cons_of_mem version ((mem_candidates_iff hranges).mpr hv))
  · exact fun others hperm => suggest?_perm hordered hperm

/-- Of two allowed versions that are equally high the order decides which one is suggested. -/
theorem version_gives_way_within_major :
    Version.IsOrdered ["1.2", "1.10", "2.0", "1.10.0"] ∧
      (concrete "1.2").suggest? ["1.10", "2.0", "1.10.0"] true = some (concrete "1.10.0") ∧
      (concrete "1.2").suggest? ["2.0", "1.10.0", "1.10"] true = some (concrete "1.10") ∧
      (∀ v, (concrete "1.2").IsAllowed ["1.10", "2.0", "1.10.0"] true v →
        Version.compareText v "1.10.0" ≠ .gt) ∧
      Version.compareText "1.10.0" "1.10" = .eq := by
  have hordered : Version.IsOrdered ["1.2", "1.10", "2.0", "1.10.0"] := by
    unfold Version.IsOrdered
    decide +kernel
  have hs : (concrete "1.2").suggest? ["1.10", "2.0", "1.10.0"] true =
      some (concrete "1.10.0") := by decide +kernel
  have ht : (concrete "1.2").suggest? ["2.0", "1.10.0", "1.10"] true =
      some (concrete "1.10") := by decide +kernel
  obtain ⟨hlatest, hperm⟩ :=
    (version_gives_way_to_latest "1.2" ["1.10", "2.0", "1.10.0"] true).2.2 hordered
  have hrel := hperm ["2.0", "1.10.0", "1.10"] (by decide)
  rw [hs, ht] at hrel
  cases hrel with
  | some heq => exact ⟨hordered, hs, ht, hlatest (concrete "1.10.0") hs, heq⟩

/-! ## Suggestions for ranges -/

/-- A range gives way to the latest candidate unless it accepts this one. -/
theorem suggest?_range (r : VersionRange) (available : List String) (keepMajor : Bool) :
    (range r).suggest? available keepMajor =
      (Version.latest? ((range r).candidates available keepMajor)).map fun best =>
        if r.accepts best then range r else concrete best :=
  rfl

/-- The latest available version that a range accepts is allowed. -/
theorem isAllowed_of_latest? {r : VersionRange} {available : List String} {keepMajor : Bool}
    {v : String} (h : Version.latest? (available.filter r.accepts) = some v) :
    (range r).IsAllowed available keepMajor v := by
  have hv : v ∈ available := List.mem_of_mem_filter (Version.mem_of_latest? h)
  have hreference : rangeReference? r available = some v := by
    rw [rangeReference?, h, Option.some_or]
  exact ⟨hv, fun _ => ⟨v, hreference, bne_self_eq_false _⟩⟩

/-- A version that a range does not accept is above all that it accepts, if no allowed version is
above it. -/
theorem compareText_of_not_accepts {r : VersionRange} {available : List String} {keepMajor : Bool}
    (h : Version.IsOrdered (available ++ r.bounds)) {best : String} (hbest : best ∈ available)
    (hnot : r.accepts best = false)
    (hmax : ∀ v, (range r).IsAllowed available keepMajor v → Version.compareText v best ≠ .gt)
    {v : String} (hv : v ∈ available) (haccepts : r.accepts v = true) :
    Version.compareText best v = .gt := by
  have havailable : Version.IsOrdered available := h.mono (List.subset_append_left _ _)
  have haccepted : v ∈ available.filter r.accepts := List.mem_filter.mpr ⟨hv, haccepts⟩
  -- the latest accepted version stands between the two
  obtain ⟨reference, hreference⟩ := Version.exists_latest? haccepted
  have hlatest := Version.isLatest_of_latest?
    (havailable.mono (List.filter_subset_self _)) hreference
  have hle : Version.compareText v best ≠ .gt :=
    havailable v hv reference (List.mem_of_mem_filter hlatest.mem) best hbest
      (hlatest.not_gt v haccepted) (hmax reference (isAllowed_of_latest? hreference))
  refine Version.compareText_eq_gt hle fun heq => ?_
  rw [VersionRange.accepts_of_compareText_eq h hv hbest heq, hnot] at haccepts
  cases haccepts

/-- **A range gives way to an allowed version that none exceeds, unless it accepts such a version.**
The version that it gives way to is newer than all available ones that it accepts. -/
theorem range_gives_way_to_latest {text : String} {r : VersionRange}
    (hread : VersionRange.read text = .ok r) (available : List String) (keepMajor : Bool)
    (hordered : Version.IsOrdered (available ++ r.bounds)) :
    ((range r).suggest? available keepMajor = some (range r) ↔
        ∃ best, (range r).IsAllowed available keepMajor best ∧ r.accepts best = true ∧
          ∀ v, (range r).IsAllowed available keepMajor v → Version.compareText v best ≠ .gt) ∧
      ∀ best, (range r).suggest? available keepMajor = some (concrete best) →
        (range r).IsAllowed available keepMajor best ∧ r.accepts best = false ∧
          (∀ v, (range r).IsAllowed available keepMajor v → Version.compareText v best ≠ .gt) ∧
          ∀ v ∈ available, r.accepts v = true → Version.compareText best v = .gt := by
  have hranges : ∀ r', range r = range r' → r'.intervals ≠ [] := by
    rintro _ ⟨⟩
    exact VersionRange.intervals_ne_nil_of_read hread
  have hcandidates : Version.IsOrdered ((range r).candidates available keepMajor) :=
    hordered.mono fun _ hv => List.mem_append_left _ (mem_of_mem_candidates hv)
  refine ⟨⟨fun hs => ?_, ?_⟩, fun best hs => ?_⟩
  · obtain ⟨best, hbest, ⟨-, hstays⟩ | ⟨hs, -⟩⟩ := exists_latest?_of_suggest? hs
    · obtain ⟨hallowed, hmax⟩ :=
        (isLatest_candidates_iff hranges).mp (Version.isLatest_of_latest? hcandidates hbest)
      exact ⟨best, hallowed, Bool.eq_true_of_not_eq_false hstays, hmax⟩
    · cases hs
  · rintro ⟨best, hallowed, haccepts, hmax⟩
    have hbest := (isLatest_candidates_iff hranges).mpr ⟨hallowed, hmax⟩
    obtain ⟨chosen, hchosen⟩ := Version.exists_latest? hbest.mem
    -- the chosen candidate need not be the given one, but is accepted like it
    have hlatest := Version.isLatest_of_latest? hcandidates hchosen
    have heq := hlatest.compareText_eq hbest
    rw [← VersionRange.accepts_of_compareText_eq hordered (mem_of_mem_candidates hlatest.mem)
      hallowed.1 heq] at haccepts
    rw [suggest?_range, hchosen, Option.map_some, if_pos haccepts]
  · obtain ⟨chosen, hchosen, ⟨hs, -⟩ | ⟨hs, hnot⟩⟩ := exists_latest?_of_suggest? hs
    · cases hs
    · obtain rfl := concrete.inj hs
      obtain ⟨hallowed, hmax⟩ :=
        (isLatest_candidates_iff hranges).mp (Version.isLatest_of_latest? hcandidates hchosen)
      exact ⟨hallowed, hnot, hmax, fun v hv hva =>
        compareText_of_not_accepts hordered hallowed.1 hnot hmax hv hva⟩

/-- A range with a gap. -/
def rangeAroundGap : VersionRange :=
  ⟨"(,1.0],[1.2,1.9)", [⟨none, some ⟨"1.0", true⟩⟩, ⟨some ⟨"1.2", true⟩, some ⟨"1.9", false⟩⟩]⟩

/-- The range accepts versions on both sides of its gap, and gives way to the latest version with
the major component of the latest of them. -/
theorem range_gives_way_around_gap :
    VersionRange.read "(,1.0],[1.2,1.9)" = .ok rangeAroundGap ∧
      Version.IsOrdered (["1.5", "0.9", "1.9.1", "2.0"] ++ rangeAroundGap.bounds) ∧
      (range rangeAroundGap).suggest? ["1.5", "0.9", "1.9.1", "2.0"] true =
        some (concrete "1.9.1") ∧
      rangeAroundGap.accepts "1.9.1" = false ∧
      ∀ v ∈ ["1.5", "0.9", "1.9.1", "2.0"], rangeAroundGap.accepts v = true →
        Version.compareText "1.9.1" v = .gt := by
  have hread : VersionRange.read "(,1.0],[1.2,1.9)" = .ok rangeAroundGap := by decide +kernel
  have hordered :
      Version.IsOrdered (["1.5", "0.9", "1.9.1", "2.0"] ++ rangeAroundGap.bounds) := by
    unfold Version.IsOrdered
    decide +kernel
  have hs : (range rangeAroundGap).suggest? ["1.5", "0.9", "1.9.1", "2.0"] true =
      some (concrete "1.9.1") := by decide +kernel
  obtain ⟨-, hnot, -, hnewer⟩ := (range_gives_way_to_latest hread _ true hordered).2 "1.9.1" hs
  exact ⟨hread, hordered, hs, hnot, hnewer⟩

/-! ## The major component -/

/-- **The restriction to the major component is kept.** A version that is suggested has the major
component of a reference, and where there are versions, the candidates are those with the major
component of one. -/
theorem suggest?_keeps_major {text : String} {current : Specifier} (hread : read text = .ok current)
    (available : List String) :
    (∀ best, current.suggest? available true = some (concrete best) →
        ∃ reference, IsReference available current reference ∧
          Major.ofText best = Major.ofText reference) ∧
      (available ≠ [] → ∃ reference, IsReference available current reference ∧
        current.candidates available true =
          available.filter fun v => !isMajorBump reference v) := by
  have hranges : ∀ r, current = range r → r.intervals ≠ [] := by
    rintro r rfl
    exact intervals_ne_nil_of_read hread
  have hallowed {best : String} (h : current.IsAllowed available true best) :
      ∃ reference, IsReference available current reference ∧
        Major.ofText best = Major.ofText reference := by
    obtain ⟨reference, hr, hmajor⟩ := h.2 rfl
    exact ⟨reference, isReference_of_reference? hr, (bne_eq_false_iff_eq.mp hmajor).symm⟩
  refine ⟨fun best hs => ?_, fun ha => ?_⟩
  · obtain ⟨chosen, hchosen, ⟨rfl, -⟩ | ⟨hs, -⟩⟩ := exists_latest?_of_suggest? hs
    · exact ⟨best, .version best, rfl⟩
    · obtain rfl := concrete.inj hs
      exact hallowed ((mem_candidates_iff hranges).mp (Version.mem_of_latest? hchosen))
  · obtain ⟨reference, hr⟩ := Option.isSome_iff_exists.mp (isSome_reference? hranges ha)
    exact ⟨reference, isReference_of_reference? hr, candidates_of_reference? hr⟩

/-- A range of the later versions with a major component. -/
def rangeAbove : VersionRange :=
  ⟨"[3.5,4.0)", [⟨some ⟨"3.5", true⟩, some ⟨"4.0", false⟩⟩]⟩

/-- A range that accepts nothing available gives way to a version with the major component of its
bound, although there is a later one. -/
theorem suggest?_keeps_major_of_bound :
    read " [3.5,4.0) " = .ok (range rangeAbove) ∧
      (range rangeAbove).suggest? ["3.1", "3.2", "5.0"] true = some (concrete "3.2") ∧
      ∃ reference, IsReference ["3.1", "3.2", "5.0"] (range rangeAbove) reference ∧
        Major.ofText "3.2" = Major.ofText reference := by
  have hread : read " [3.5,4.0) " = .ok (range rangeAbove) := by decide +kernel
  have hs : (range rangeAbove).suggest? ["3.1", "3.2", "5.0"] true = some (concrete "3.2") := by
    decide +kernel
  exact ⟨hread, hs, (suggest?_keeps_major hread _).1 "3.2" hs⟩

end MavenUpgrade.Specifier

import Mathlib
import MavenUpgrade.Proofs.Manifest.Reading
import MavenUpgrade.Proofs.Suggest.Outcome
import MavenUpgrade.Run.Basic

/-!
# Failed lookups in a report

A requirement whose package was looked up in vain keeps its version. It is listed among the
errors of the report, and the run ends with the status of a partial one, unless a property moves
it: it is then pinned, which the report shows as an update, and nothing tells of the lookup.
-/

namespace MavenUpgrade

/-! ## Requirements without versions -/

namespace SuggestOptions

/-- A requirement needs the versions of its package, and its lookup did not find any. -/
def FailsLookup (o : SuggestOptions) (r : Requirement) (lookup? : Option Lookup) : Prop :=
  o.skipsEarly? r = none ∧ (∃ current, Specifier.read r.resolved = .ok current) ∧
    ∀ versions, lookup? ≠ some (.found versions)

instance (o : SuggestOptions) (r : Requirement) (lookup? : Option Lookup) :
    Decidable (o.FailsLookup r lookup?) :=
  decidable_of_iff (o.skipsEarly? r = none ∧ (Specifier.read r.resolved).isOk = true ∧
      lookup?.any Lookup.isFound = false) <| by
    refine and_congr_right fun _ => and_congr ?_ ?_
    · cases Specifier.read r.resolved <;> simp [Except.isOk, Except.toBool]
    · rcases lookup? with _ | (_ | _ | _) <;> simp [Lookup.isFound]

/-- What is skipped before its lookup is not skipped because of it. -/
theorem not_isLookupFailure_skipsEarly? (o : SuggestOptions) (r : Requirement)
    {reason : SkipReason} (h : o.skipsEarly? r = some reason) :
    reason.isLookupFailure = false := by
  rw [skipsEarly?] at h
  split_ifs at h <;> obtain rfl := Option.some.inj h <;> rfl

/-- A requirement whose lookup fails is kept, and the reason tells of the lookup. -/
theorem judge_of_failsLookup {o : SuggestOptions} {r : Requirement} {lookup? : Option Lookup}
    (h : o.FailsLookup r lookup?) :
    ∃ reason, reason.isLookupFailure = true ∧ o.judge r lookup? = .keep r reason := by
  obtain ⟨hs, ⟨current, hc⟩, hl⟩ := h
  generalize hj : o.judge r lookup? = j
  cases judges_of_eq hj with
  | missing _ _ | failed _ _ error | cancelled _ _ => exact ⟨_, rfl, rfl⟩
  | unresolved hs' | early hs' hn => cases hs.symm.trans hs'
  | unreadable _ hc' => cases hc.symm.trans hc'
  | nothing _ _ hv | latest _ _ hv hsame | upgraded _ _ hv hne => exact absurd rfl (hl _)

/-- Only a requirement whose lookup fails is kept because of its lookup. -/
theorem failsLookup_of_judge {o : SuggestOptions} {r : Requirement} {lookup? : Option Lookup}
    {reason : SkipReason} (hr : reason.isLookupFailure = true)
    (h : (o.judge r lookup?).skip? = some reason) : o.FailsLookup r lookup? := by
  generalize hj : o.judge r lookup? = j at h
  cases judges_of_eq hj with
  | missing hs hc | failed hs hc error | cancelled hs hc =>
    refine ⟨hs, ⟨_, hc⟩, fun versions he => ?_⟩
    cases he
  -- all other rules give reasons that do not tell of the lookup
  | early hs hn =>
    obtain rfl := Option.some.inj h
    rw [o.not_isLookupFailure_skipsEarly? r hs] at hr
    cases hr
  | unresolved hs | unreadable hs hc | nothing hs hc hv | latest hs hc hv hsame =>
    obtain rfl := Option.some.inj h
    cases hr
  | upgraded hs hc hv hne => cases h

/-! ## What is reported of them -/

/-- An outcome tells of a failed lookup exactly when the lookup of a requirement fails that the
changed properties do not move. -/
theorem isLookupFailure_outcome_iff (o : SuggestOptions) (m : Manifest) (patch : Patch)
    (r : Requirement) (lookup? : Option Lookup) :
    (m.outcome patch r (o.judge r lookup?)).isLookupFailure = true ↔
      o.FailsLookup r lookup? ∧ ¬ m.IsMoved patch r := by
  constructor
  · intro h
    have hj := o.fits_judge r lookup?
    generalize hjudge : o.judge r lookup? = j at h hj
    generalize ho : m.outcome patch r j = outcome at h
    cases Manifest.outcomeOf_of_eq hj ho with
    | unknown =>
      obtain ⟨-, name, rfl⟩ := unresolved_of_judge hjudge
      cases h
    | skipped hm => exact ⟨failsLookup_of_judge h (hjudge ▸ rfl), hm⟩
    | pinned hm => cases h
    | direct hne => cases h
    | carried hne hp hv => cases h
  · rintro ⟨hf, hm⟩
    obtain ⟨reason, hr, hj⟩ := judge_of_failsLookup hf
    rw [hj, m.outcome_keep, if_neg hm]
    exact hr

end SuggestOptions

/-- The summary of a report is partial exactly when one of its outcomes tells of a failed
lookup. -/
theorem Summary.isPartial_iff (s : Summary) :
    s.isPartial = true ↔ ∃ outcome ∈ s.results, outcome.isLookupFailure = true := by
  rw [isPartial, Bool.not_eq_true', List.isEmpty_eq_false_iff_exists_mem]
  simp only [lookupFailures, List.mem_filter]

/-- A run ends with the status of a partial one exactly when its summary is partial. -/
theorem Summary.exitStatus_eq_two_iff (s : Summary) : s.exitStatus = 2 ↔ s.isPartial = true := by
  rw [exitStatus]
  split
  · next h => exact ⟨fun _ => h, fun _ => rfl⟩
  · next h => exact ⟨fun h' => absurd h' (by decide), fun h' => absurd h' h⟩

/-- A skip that tells of a failed lookup is among the errors. -/
theorem Summary.mem_errors {s : Summary} {r : Requirement} {reason : SkipReason}
    (hr : reason.isLookupFailure = true) (h : .skip r reason ∈ s.results) :
    r.name ++ ": " ++ reason.message ∈ s.errors := by
  rw [errors, List.mem_filterMap]
  exact ⟨.skip r reason, h, if_pos hr⟩

/-- **A failed lookup is reported exactly when no changed property moves the requirement.**
Its outcome is then a skip that tells of the lookup, a line among the errors, and the status of a
partial run; a requirement that is moved is shown as pinned to its version instead. The run counts
as partial exactly when some requirement whose lookup fails is not moved. -/
theorem failed_lookup_reported_iff_not_moved (o : SuggestOptions) (m : Manifest)
    (lookup? : Package → Option Lookup) (root before after : String) (path : Path)
    (modified : Bool) (i : Nat) (r : Requirement) (hr : m.requirements[i]? = some r)
    (hf : o.FailsLookup r (lookup? r.package)) :
    let plan : UpgradePlan := ⟨root, o.suggest m lookup?, before, after⟩
    let summary := (plan.report path modified).summary
    ((∃ reason, reason.isLookupFailure = true ∧ summary.results[i]? = some (.skip r reason) ∧
        r.name ++ ": " ++ reason.message ∈ summary.errors ∧
        summary.isPartial = true ∧ summary.exitStatus = 2) ↔
      ¬ m.IsMoved (o.suggest m lookup?).patch r) ∧
    (m.IsMoved (o.suggest m lookup?).patch r →
      summary.results[i]? = some (.update r r.resolved .pinned)) ∧
    (summary.exitStatus = 2 ↔
      ∃ q ∈ m.requirements, o.FailsLookup q (lookup? q.package) ∧
        ¬ m.IsMoved (o.suggest m lookup?).patch q) := by
  intro plan summary
  obtain ⟨reason, hreason, hj⟩ := SuggestOptions.judge_of_failsLookup hf
  have hresults : summary.results[i]? =
      some (m.outcome (o.suggest m lookup?).patch r (.keep r reason)) := by
    rw [← hj]
    exact o.results_getElem? m lookup? hr
  rw [m.outcome_keep] at hresults
  refine ⟨⟨?_, ?_⟩, ?_, ?_⟩
  · -- a moved requirement is pinned and reports no failure
    rintro ⟨reason', -, hskip, -⟩ hm
    rw [hresults, if_pos hm] at hskip
    cases hskip
  · intro hm
    rw [if_neg hm] at hresults
    have hmem := List.mem_of_getElem? hresults
    have hpartial := summary.isPartial_iff.mpr ⟨_, hmem, hreason⟩
    exact ⟨reason, hreason, hresults, summary.mem_errors hreason hmem, hpartial,
      summary.exitStatus_eq_two_iff.mpr hpartial⟩
  · intro hm
    rw [hresults, if_pos hm]
  · rw [summary.exitStatus_eq_two_iff, summary.isPartial_iff]
    have hall : summary.results = m.requirements.map fun q =>
        m.outcome (o.suggest m lookup?).patch q (o.judge q (lookup? q.package)) :=
      o.results_eq m lookup?
    rw [hall]
    constructor
    · rintro ⟨outcome, ho, hl⟩
      obtain ⟨q, hq, rfl⟩ := List.mem_map.mp ho
      exact ⟨q, hq, (o.isLookupFailure_outcome_iff m _ q _).mp hl⟩
    · rintro ⟨q, hq, hl⟩
      exact ⟨_, List.mem_map_of_mem hq, (o.isLookupFailure_outcome_iff m _ q _).mpr hl⟩

/-! ## A property that two packages share -/

/-- A document in pieces: its two dependencies take their versions from one property. -/
def sharedProperty : List String :=
  twoDependencies "1" "$\x7bv\x7d"

/-- One of the two packages has the given versions; the lookup of the other one is given up. -/
def lookupHalf (versions : List String) (package : Package) : Option Lookup :=
  if package.name = "g:b" then some (.found versions) else some .cancelled

/-- The summary of a dry run on a manifest whose packages are looked up like this. -/
def summaryHalf (versions : List String) (m : Manifest) : Summary :=
  let plan : UpgradePlan :=
    ⟨m.root.text, SuggestOptions.free.suggest m (lookupHalf versions), "", ""⟩
  (plan.report (.ofText "pom.xml") false).summary

/-- Where the version found is in use already, the property stays and the failed lookup is
reported. -/
theorem failed_lookup_reported_beside_latest :
    ∃ m r, Manifest.read (String.join sharedProperty) = .ok m ∧ m.requirements[1]? = some r ∧
      SuggestOptions.free.FailsLookup r (lookupHalf ["1.0"] r.package) ∧
      ∃ reason, reason.isLookupFailure = true ∧
        (summaryHalf ["1.0"] m).results[1]? = some (.skip r reason) ∧
        r.name ++ ": " ++ reason.message ∈ (summaryHalf ["1.0"] m).errors ∧
        (summaryHalf ["1.0"] m).isPartial = true ∧ (summaryHalf ["1.0"] m).exitStatus = 2 := by
  obtain ⟨m, hm, h⟩ := Manifest.exists_of_any sharedProperty (fun m =>
    m.requirements[1]?.any fun r =>
      SuggestOptions.free.FailsLookup r (lookupHalf ["1.0"] r.package) ∧
        ¬ m.IsMoved (SuggestOptions.free.suggest m (lookupHalf ["1.0"])).patch r)
    (by decide +kernel)
  obtain ⟨r, hr, h⟩ := (Option.any_eq_true _ _).mp h
  obtain ⟨hf, hmoved⟩ := of_decide_eq_true h
  have hreport := failed_lookup_reported_iff_not_moved .free m (lookupHalf ["1.0"]) m.root.text
    "" "" (.ofText "pom.xml") false 1 r hr hf
  exact ⟨m, r, hm, hr, hf, hreport.1.mpr hmoved⟩

/-- Where the version found is newer, the property moves, and nothing is left of the failed
lookup: the run passes for a complete one. -/
theorem failed_lookup_lost_beside_newer :
    ∃ m r, Manifest.read (String.join sharedProperty) = .ok m ∧ m.requirements[1]? = some r ∧
      SuggestOptions.free.FailsLookup r (lookupHalf ["2.0"] r.package) ∧
      (summaryHalf ["2.0"] m).results[1]? = some (.update r "1.0" .pinned) ∧
      (summaryHalf ["2.0"] m).errors = [] ∧
      (summaryHalf ["2.0"] m).isPartial = false ∧ (summaryHalf ["2.0"] m).exitStatus = 0 := by
  obtain ⟨m, hm, h⟩ := Manifest.exists_of_any sharedProperty (fun m =>
    m.requirements[1]?.any fun r =>
      SuggestOptions.free.FailsLookup r (lookupHalf ["2.0"] r.package) ∧
        (summaryHalf ["2.0"] m).results[1]? = some (.update r "1.0" .pinned) ∧
        (summaryHalf ["2.0"] m).errors = [] ∧
        (summaryHalf ["2.0"] m).isPartial = false ∧ (summaryHalf ["2.0"] m).exitStatus = 0)
    (by decide +kernel)
  obtain ⟨r, hr, h⟩ := (Option.any_eq_true _ _).mp h
  exact ⟨m, r, hm, hr, of_decide_eq_true h⟩

end MavenUpgrade

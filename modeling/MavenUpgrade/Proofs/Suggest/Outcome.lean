import Mathlib
import MavenUpgrade.Proofs.Patch
import MavenUpgrade.Suggest.Arbitration

/-!
# What becomes of one requirement

A requirement is judged by one of nine rules (`SuggestOptions.Judges`). The judgement takes one of
three forms: the version text of the requirement is not resolved, it is kept for a reason, or it
gives way to another one (`Judgement.Fits`). What it comes to under the changed properties follows
from its form (`Manifest.OutcomeOf`): a requirement that is kept is skipped, unless it refers to declared
properties that move it; it is then pinned.
-/

namespace MavenUpgrade

/-! ## The rules of judging -/

namespace SuggestOptions

/-- The judgement on a requirement, rule by rule. -/
inductive Judges (o : SuggestOptions) (r : Requirement) : Option Lookup → Judgement → Prop where
  | unresolved {lookup? : Option Lookup} {name : String}
      (hs : o.skipsEarly? r = some (.unresolvedProperty name)) :
      Judges o r lookup? ⟨none, some (.unresolvedProperty name)⟩
  | early {lookup? : Option Lookup} {reason : SkipReason} (hs : o.skipsEarly? r = some reason)
      (hn : ∀ name, reason ≠ .unresolvedProperty name) : Judges o r lookup? (.keep r reason)
  | unreadable {lookup? : Option Lookup} {error : SpecifierError} (hs : o.skipsEarly? r = none)
      (hc : Specifier.read r.resolved = .error error) :
      Judges o r lookup? (.keep r (.invalidSpecifier r.resolved))
  | missing {current : Specifier} (hs : o.skipsEarly? r = none)
      (hc : Specifier.read r.resolved = .ok current) :
      Judges o r none (.keep r (.fetchFailed noLookupMessage))
  | failed {current : Specifier} (hs : o.skipsEarly? r = none)
      (hc : Specifier.read r.resolved = .ok current) (error : LookupError) :
      Judges o r (some (.failed error)) (.keep r (.fetchFailed error.message))
  | cancelled {current : Specifier} (hs : o.skipsEarly? r = none)
      (hc : Specifier.read r.resolved = .ok current) :
      Judges o r (some .cancelled) (.keep r .cancelled)
  | nothing {current : Specifier} {versions : List String} (hs : o.skipsEarly? r = none)
      (hc : Specifier.read r.resolved = .ok current)
      (hv : current.suggest? (o.eligible current versions) (o.forbidsMajorBump r.name) = none) :
      Judges o r (some (.found versions)) (.keep r .noVersionsAvailable)
  | latest {current suggested : Specifier} {versions : List String} (hs : o.skipsEarly? r = none)
      (hc : Specifier.read r.resolved = .ok current)
      (hv : current.suggest? (o.eligible current versions) (o.forbidsMajorBump r.name) =
        some suggested) (hsame : suggested.text = r.resolved) :
      Judges o r (some (.found versions)) (.keep r .alreadyLatest)
  | upgraded {current suggested : Specifier} {versions : List String}
      (hs : o.skipsEarly? r = none) (hc : Specifier.read r.resolved = .ok current)
      (hv : current.suggest? (o.eligible current versions) (o.forbidsMajorBump r.name) =
        some suggested) (hne : suggested.text ≠ r.resolved) :
      Judges o r (some (.found versions)) (.upgrade suggested.text)

/-- **Each judgement follows one of the rules.** -/
theorem judges_judge (o : SuggestOptions) (r : Requirement) (lookup? : Option Lookup) :
    o.Judges r lookup? (o.judge r lookup?) := by
  unfold judge
  split
  · next name hs => exact .unresolved hs
  · next reason hn hs => exact .early hs hn
  · next hs =>
    split
    · next error hc => exact .unreadable hs hc
    · next current versions hc =>
      rw [judgeFound]
      split
      · next suggested hv =>
        split
        · next hsame => exact .latest hs hc hv hsame
        · next hne => exact .upgraded hs hc hv hne
      · next hv => exact .nothing hs hc hv
    · next error hc => exact .failed hs hc error
    · next hc => exact .cancelled hs hc
    · next hc => exact .missing hs hc

theorem judges_of_eq {o : SuggestOptions} {r : Requirement} {lookup? : Option Lookup}
    {j : Judgement} (h : o.judge r lookup? = j) : o.Judges r lookup? j :=
  h ▸ o.judges_judge r lookup?

/-- A requirement that is skipped early is not upgraded. -/
theorem skip?_of_skipsEarly? {o : SuggestOptions} {r : Requirement} {lookup? : Option Lookup}
    {reason : SkipReason} (h : o.skipsEarly? r = some reason) :
    (o.judge r lookup?).skip? = some reason := by
  unfold judge
  rw [h]
  cases reason <;> rfl

end SuggestOptions

/-! ## The forms of a judgement -/

/-- The judgements that a requirement may receive: its version is not known, it is kept, or it gives
way to another one. -/
inductive Judgement.Fits (r : Requirement) : Judgement → Prop where
  | unknown (reason : SkipReason) : Fits r ⟨none, some reason⟩
  | kept (reason : SkipReason) : Fits r (.keep r reason)
  | upgraded (version : String) (h : version ≠ r.resolved) : Fits r (.upgrade version)

namespace SuggestOptions

/-- A requirement is skipped as unresolved only if a placeholder is left in its version text. -/
theorem isUnresolved_of_skipsEarly? {o : SuggestOptions} {r : Requirement} {name : String}
    (h : o.skipsEarly? r = some (.unresolvedProperty name)) : r.isUnresolved = true := by
  rw [skipsEarly?] at h
  split_ifs at h with _ _ hu
  · cases h
  · cases h
  · exact hu

/-- Every judgement has one of the three forms. -/
theorem fits_judge (o : SuggestOptions) (r : Requirement) (lookup? : Option Lookup) :
    (o.judge r lookup?).Fits r := by
  generalize hj : o.judge r lookup? = j
  cases judges_of_eq hj with
  | unresolved hs => exact .unknown _
  | early hs hn => exact .kept _
  | unreadable hs hc => exact .kept _
  | missing hs hc => exact .kept _
  | failed hs hc error => exact .kept _
  | cancelled hs hc => exact .kept _
  | nothing hs hc hv => exact .kept _
  | latest hs hc hv hsame => exact .kept _
  | upgraded hs hc hv hne => exact .upgraded _ hne

/-- The version of a requirement is not known only where a placeholder is left in its version
text. -/
theorem unresolved_of_judge {o : SuggestOptions} {r : Requirement} {lookup? : Option Lookup}
    {reason : SkipReason} (h : o.judge r lookup? = ⟨none, some reason⟩) :
    r.isUnresolved = true ∧ ∃ name, reason = .unresolvedProperty name := by
  generalize hj : o.judge r lookup? = j at h
  cases judges_of_eq hj with
  | unresolved hs =>
    obtain rfl := Option.some.inj (congrArg Judgement.skip? h)
    exact ⟨isUnresolved_of_skipsEarly? hs, _, rfl⟩
  -- all other rules give a version
  | early | unreadable | missing | failed | cancelled | nothing | latest | upgraded => cases h

end SuggestOptions

/-! ## The outcome of each form -/

namespace Manifest

/-- The changed properties move a requirement: it refers to a declared one, and with the new
values its text no longer gives the version that it has. -/
def IsMoved (m : Manifest) (patch : Patch) (r : Requirement) : Prop :=
  m.requirementRefs r ≠ [] ∧ m.resolvePatched patch r.origin.scope r.declared ≠ r.resolved

instance (m : Manifest) (patch : Patch) (r : Requirement) : Decidable (m.IsMoved patch r) :=
  inferInstanceAs (Decidable (_ ∧ _))

theorem followsProperties_iff (m : Manifest) (patch : Patch) (r : Requirement) (desired : String) :
    m.followsProperties patch r desired = true ↔
      m.requirementRefs r ≠ [] ∧ m.resolvePatched patch r.origin.scope r.declared = desired := by
  rw [followsProperties, Bool.and_eq_true, decide_eq_true_eq, Bool.not_eq_true',
    List.isEmpty_eq_false_iff]

/-- A requirement that is kept is pinned where the changed properties move it, and skipped
everywhere else. -/
theorem outcome_keep (m : Manifest) (patch : Patch) (r : Requirement) (reason : SkipReason) :
    m.outcome patch r (.keep r reason) =
      if m.IsMoved patch r then .update r r.resolved .pinned else .skip r reason := by
  show (if m.followsProperties patch r r.resolved then Outcome.skip r reason
    else if r.resolved = r.resolved ∧ (m.requirementRefs r).isEmpty = false then
      .update r r.resolved .pinned
    else .skip r reason) = _
  by_cases hm : m.IsMoved patch r
  · have hf : ¬ m.followsProperties patch r r.resolved = true := by
      rw [followsProperties_iff]
      exact fun h => hm.2 h.2
    rw [if_neg hf, if_pos hm, if_pos ⟨rfl, List.isEmpty_eq_false_iff.mpr hm.1⟩]
  · rw [if_neg hm]
    by_cases hf : m.followsProperties patch r r.resolved = true
    · rw [if_pos hf]
    · rw [if_neg hf, if_neg]
      rintro ⟨-, hr⟩
      rw [List.isEmpty_eq_false_iff] at hr
      exact hm ⟨hr, fun h => hf ((m.followsProperties_iff patch r _).mpr ⟨hr, h⟩)⟩

/-- An upgrade is carried by a property only if the changed properties give the new version. -/
theorem outcome_upgrade (m : Manifest) (patch : Patch) (r : Requirement) (version : String) :
    m.outcome patch r (.upgrade version) = .update r version .direct ∨
      ∃ p, m.changedRef? patch r = some p ∧
        m.resolvePatched patch r.origin.scope r.declared = version ∧
        m.outcome patch r (.upgrade version) = .update r version (.property p.scope p.name) := by
  show (if m.followsProperties patch r version then _ else _) = _ ∨
    ∃ p, _ ∧ _ ∧ (if m.followsProperties patch r version then _ else _) = _
  by_cases hf : m.followsProperties patch r version = true
  · rw [if_pos hf]
    cases hc : m.changedRef? patch r with
    | none => exact Or.inl rfl
    | some p =>
      exact Or.inr ⟨p, rfl, ((m.followsProperties_iff patch r version).mp hf).2, rfl⟩
  · rw [if_neg hf]
    exact Or.inl rfl

/-- What a requirement comes to under a patch, by the form of its judgement: one that is kept is
pinned where the changed properties move it, and an upgrade replaces the version text, unless a
changed property is found and the text comes to the new version already. -/
inductive OutcomeOf (m : Manifest) (patch : Patch) (r : Requirement) : Judgement → Outcome → Prop
  where
  | unknown {reason : SkipReason} : OutcomeOf m patch r ⟨none, some reason⟩ (.skip r reason)
  | skipped {reason : SkipReason} (hm : ¬ m.IsMoved patch r) :
      OutcomeOf m patch r (.keep r reason) (.skip r reason)
  | pinned {reason : SkipReason} (hm : m.IsMoved patch r) :
      OutcomeOf m patch r (.keep r reason) (.update r r.resolved .pinned)
  | direct {version : String} (hne : version ≠ r.resolved) :
      OutcomeOf m patch r (.upgrade version) (.update r version .direct)
  | carried {version : String} {p : PropertyRef} (hne : version ≠ r.resolved)
      (hp : m.changedRef? patch r = some p)
      (hv : m.resolvePatched patch r.origin.scope r.declared = version) :
      OutcomeOf m patch r (.upgrade version) (.update r version (.property p.scope p.name))

/-- **The outcome of a requirement follows from the form of its judgement.** -/
theorem outcomeOf_of_eq {m : Manifest} {patch : Patch} {r : Requirement} {j : Judgement}
    {outcome : Outcome} (hj : j.Fits r) (h : m.outcome patch r j = outcome) :
    m.OutcomeOf patch r j outcome := by
  cases hj with
  | unknown reason => exact h ▸ .unknown
  | kept reason =>
    rw [outcome_keep] at h
    split at h
    · next hm => exact h ▸ .pinned hm
    · next hm => exact h ▸ .skipped hm
  | upgraded version hne =>
    rcases m.outcome_upgrade patch r version with ho | ⟨p, hp, hv, ho⟩
    · exact h ▸ ho ▸ .direct hne
    · exact h ▸ ho ▸ .carried hne hp hv

/-- A requirement that is skipped is skipped for the reason that its judgement gives. -/
theorem skip?_of_outcome {m : Manifest} {patch : Patch} {r : Requirement} {j : Judgement}
    {reason : SkipReason} (hj : j.Fits r) (h : m.outcome patch r j = .skip r reason) :
    j.skip? = some reason := by
  cases outcomeOf_of_eq hj h with
  | unknown => rfl
  | skipped hm => rfl

/-- An outcome is about its requirement. -/
theorem requirement_outcome (m : Manifest) (patch : Patch) (r : Requirement) (j : Judgement) :
    (m.outcome patch r j).requirement = r := by
  unfold outcome
  split
  · rfl
  · split
    · rfl
    · split <;> rfl
  · split
    · split <;> rfl
    · rfl

/-- The overrides of a patch do not bear on the search for a changed property. -/
theorem firstChanged?_overrides (m : Manifest) (patch : Patch) (overrides : List DependencyPatch)
    (scope : Scope) (fuel : Nat) (seen queue : List PropertyRef) :
    m.firstChanged? { patch with dependencies := overrides } scope fuel seen queue =
      m.firstChanged? patch scope fuel seen queue := by
  induction fuel generalizing seen queue with
  | zero => rfl
  | succ fuel ih =>
    cases queue with
    | nil => rfl
    | cons p queue =>
      rw [firstChanged?, firstChanged?, ih]
      rfl

/-- The overrides of a patch do not bear on the outcome of a requirement. -/
theorem outcome_overrides (m : Manifest) (patch : Patch) (overrides : List DependencyPatch)
    (r : Requirement) (j : Judgement) :
    m.outcome { patch with dependencies := overrides } r j = m.outcome patch r j := by
  have hf (desired : String) :
      m.followsProperties { patch with dependencies := overrides } r desired =
        m.followsProperties patch r desired := rfl
  have hc : m.changedRef? { patch with dependencies := overrides } r = m.changedRef? patch r :=
    m.firstChanged?_overrides patch overrides _ _ _ _
  unfold outcome
  simp only [hf, hc]

end Manifest

/-! ## The results of a suggestion -/

namespace SuggestOptions

/-- Suggestions without any constraint. -/
def free : SuggestOptions := ⟨false, [], [], false⟩

variable (o : SuggestOptions) (m : Manifest) (lookup? : Package → Option Lookup)

/-- The judgements on the requirements of a manifest, given what the lookups came to. -/
def judgements : Manifest.Judgements :=
  m.requirements.map fun r => o.judge r (lookup? r.package)

theorem zip_judgements :
    m.requirements.zip (o.judgements m lookup?) =
      m.requirements.map fun r => (r, o.judge r (lookup? r.package)) := by
  rw [judgements, List.map_prod_left_eq_zip]

/-- The results list the outcome of each requirement under the changed properties. -/
theorem results_eq :
    (o.suggest m lookup?).results =
      m.requirements.map fun r =>
        m.outcome (o.suggest m lookup?).patch r (o.judge r (lookup? r.package)) := by
  show (m.requirements.zip (o.judgements m lookup?)).map (fun x =>
    m.outcome (m.propertyPatch (o.judgements m lookup?)) x.1 x.2) = _
  rw [zip_judgements, List.map_map]
  refine List.map_congr_left fun r _ => ?_
  exact (m.outcome_overrides _ _ r _).symm

theorem results_getElem? {i : Nat} {r : Requirement} (hr : m.requirements[i]? = some r) :
    (o.suggest m lookup?).results[i]? =
      some (m.outcome (o.suggest m lookup?).patch r (o.judge r (lookup? r.package))) := by
  rw [results_eq, List.getElem?_map, hr, Option.map_some]

variable {m}

/-- A result is the outcome of the requirement at its index. -/
theorem exists_of_results {i : Nat} {outcome : Outcome}
    (h : (o.suggest m lookup?).results[i]? = some outcome) :
    m.requirements[i]? = some outcome.requirement ∧
      m.outcome (o.suggest m lookup?).patch outcome.requirement
        (o.judge outcome.requirement (lookup? outcome.requirement.package)) = outcome := by
  rw [results_eq, List.getElem?_map] at h
  obtain ⟨r, hr, rfl⟩ := Option.map_eq_some_iff.mp h
  rw [Manifest.requirement_outcome]
  exact ⟨hr, rfl⟩

variable (m)

/-- The overrides of a suggestion are those that the outcomes ask for. -/
theorem dependencies_suggest :
    (o.suggest m lookup?).patch.dependencies = m.requirements.filterMap fun r =>
      Manifest.overrideOf? (m.outcome (o.suggest m lookup?).patch r
        (o.judge r (lookup? r.package))) := by
  show (o.suggest m lookup?).results.filterMap Manifest.overrideOf? = _
  rw [results_eq, List.filterMap_map]
  rfl

end SuggestOptions

end MavenUpgrade

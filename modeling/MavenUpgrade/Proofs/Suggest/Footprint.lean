import Mathlib
import MavenUpgrade.Proofs.Collection.First
import MavenUpgrade.Proofs.Lookup.History
import MavenUpgrade.Proofs.Suggest.LookupFailure
import MavenUpgrade.Proofs.Suggest.Targets

/-!
# What a suggestion reads of the lookups

The packages to look up are chosen before any lookup, and the requirements are judged after all of
them. Both ask the same question first, so a judgement reads a lookup only where its package was
chosen (`SuggestOptions.judge_lookup_congr`), and the suggestion does not depend on any other lookup
(`SuggestOptions.suggest_reads_only_packagesToFetch`). In a plan every chosen package has an
outcome, if only that its lookup was given up, so no requirement misses one
(`UpgradePlan.noLookup_not_mem_results`).
-/

namespace MavenUpgrade

/-- The wording of a failed lookup is never that of a missing one. -/
theorem LookupError.message_ne_noLookupMessage (e : LookupError) :
    e.message ≠ SuggestOptions.noLookupMessage := by
  intro h
  have hhead : e.message.toList.head? = some 'n' := by
    rw [h]
    rfl
  -- each wording begins with another letter
  rw [message] at hhead
  cases hf : e.fault <;> rw [hf] at hhead <;> simp at hhead

namespace SuggestOptions

variable {o : SuggestOptions} {m : Manifest}

/-! ## The packages to look up -/

/-- A package is looked up exactly when some requirement on it is not skipped early. -/
theorem mem_packagesToFetch_iff {p : Package} :
    p ∈ o.packagesToFetch m ↔ ∃ r ∈ m.requirements, o.skipsEarly? r = none ∧ r.package = p := by
  rw [packagesToFetch, mem_distinct, List.mem_map]
  simp only [List.mem_filter, Option.isNone_iff_eq_none, and_assoc]

/-- The packages to look up are those of the requirements that are the first to need theirs. -/
theorem packagesToFetch_eq_firstPlaces (o : SuggestOptions) (m : Manifest) :
    o.packagesToFetch m =
      (firstPlaces (fun r => (o.skipsEarly? r).isNone) (·.package) m.requirements).map fun i =>
        (m.requirements.get i).package := by
  rw [packagesToFetch, distinct, distinctBy_map]
  show (distinctBy Requirement.package _).map _ = _
  rw [distinctBy_filter, List.map_map]
  rfl

/-! ## Judgements on the lookups -/

/-- A judgement reads the lookup of a package only where the requirement is not skipped early. -/
theorem judge_lookup_congr {r : Requirement} {lookup? other? : Option Lookup}
    (h : o.skipsEarly? r = none → lookup? = other?) :
    o.judge r lookup? = o.judge r other? := by
  cases hs : o.skipsEarly? r with
  | none => rw [h hs]
  | some reason => cases reason <;> simp only [judge, hs]

/-- A requirement is kept for want of a lookup only if it is not skipped early and has none. -/
theorem lookup_eq_none_of_judge {r : Requirement} {lookup? : Option Lookup}
    (h : (o.judge r lookup?).skip? = some (.fetchFailed noLookupMessage)) :
    o.skipsEarly? r = none ∧ lookup? = none := by
  obtain ⟨hnone, -, -⟩ := failsLookup_of_judge rfl h
  refine ⟨hnone, ?_⟩
  generalize hj : o.judge r lookup? = j at h
  cases judges_of_eq hj with
  | missing hs hc => rfl
  | failed hs hc error =>
    have hmessage := SkipReason.fetchFailed.inj (Option.some.inj h)
    exact absurd hmessage error.message_ne_noLookupMessage
  | early hs hn => cases hnone.symm.trans hs
  | unresolved hs | unreadable hs hc | cancelled hs hc | nothing hs hc hv
  | latest hs hc hv hsame | upgraded hs hc hv hne => cases h

/-! ## The suggestion -/

variable {lookup? other? : Package → Option Lookup}

/-- Lookups that agree on the packages to look up lead to the same judgements. -/
theorem judgements_congr (h : ∀ p ∈ o.packagesToFetch m, lookup? p = other? p) :
    o.judgements m lookup? = o.judgements m other? :=
  List.map_congr_left fun r hr => judge_lookup_congr fun hs =>
    h r.package (mem_packagesToFetch_iff.mpr ⟨r, hr, hs, rfl⟩)

/-- Lookups that agree on the packages to look up lead to the same suggestion. -/
theorem suggest_congr (h : ∀ p ∈ o.packagesToFetch m, lookup? p = other? p) :
    o.suggest m lookup? = o.suggest m other? := by
  show Suggestion.mk (m.arbitrate (o.judgements m lookup?)) (m.outcomes (o.judgements m lookup?)) =
    Suggestion.mk (m.arbitrate (o.judgements m other?)) (m.outcomes (o.judgements m other?))
  rw [judgements_congr h]

/-- A requirement is skipped for want of a lookup only if its package is one to look up, and has
no lookup. -/
theorem mem_packagesToFetch_of_noLookup {r : Requirement}
    (h : .skip r (.fetchFailed noLookupMessage) ∈ (o.suggest m lookup?).results) :
    r.package ∈ o.packagesToFetch m ∧ lookup? r.package = none := by
  obtain ⟨i, hi⟩ := List.mem_iff_getElem?.mp h
  obtain ⟨hr, hout⟩ := exists_of_results o lookup? hi
  have hskip := Manifest.skip?_of_outcome (o.fits_judge _ _) hout
  obtain ⟨hs, hnone⟩ := lookup_eq_none_of_judge hskip
  exact ⟨mem_packagesToFetch_iff.mpr ⟨r, List.mem_of_getElem? hr, hs, rfl⟩, hnone⟩

/-- No requirement is skipped for want of a lookup if the packages to look up have one. -/
theorem noLookup_not_mem_results (h : ∀ p ∈ o.packagesToFetch m, (lookup? p).isSome = true)
    (r : Requirement) :
    .skip r (.fetchFailed noLookupMessage) ∉ (o.suggest m lookup?).results := by
  intro hmem
  obtain ⟨hp, hnone⟩ := mem_packagesToFetch_of_noLookup hmem
  have hsome := h r.package hp
  rw [hnone] at hsome
  cases hsome

/-- **A suggestion reads the lookups only at the packages to look up.** These are distinct, each
stands where a requirement first needs it, and tables that agree on them lead to the same patch and
the same results. Where a table covers them, no requirement is skipped for want of a lookup. -/
theorem suggest_reads_only_packagesToFetch (o : SuggestOptions) (m : Manifest) :
    (o.packagesToFetch m).Nodup ∧
      o.packagesToFetch m =
        (firstPlaces (fun r => (o.skipsEarly? r).isNone) (·.package) m.requirements).map (fun i =>
          (m.requirements.get i).package) ∧
      (∀ lookup? other? : Package → Option Lookup,
        (∀ p ∈ o.packagesToFetch m, lookup? p = other? p) →
          (o.suggest m lookup?).patch = (o.suggest m other?).patch ∧
            (o.suggest m lookup?).results = (o.suggest m other?).results) ∧
      ∀ lookup? : Package → Option Lookup,
        (∀ p ∈ o.packagesToFetch m, (lookup? p).isSome = true) → ∀ r,
          .skip r (.fetchFailed noLookupMessage) ∉ (o.suggest m lookup?).results := by
  refine ⟨nodup_distinct _, o.packagesToFetch_eq_firstPlaces m, fun lookup? other? h => ?_,
    fun lookup? h => noLookup_not_mem_results h⟩
  rw [suggest_congr h]
  exact ⟨rfl, rfl⟩

/-- A document in pieces: the package `g:b` is first required by a test, then, behind `g:c` and
`g:d`, by the management of dependencies. -/
def neededLater : List String :=
  ["<project><groupId>g</groupId>", "<artifactId>a</artifactId>", "<version>1</version>",
    "<dependencies><dependency>", "<groupId>g</groupId>", "<artifactId>b</artifactId>",
    "<version>1.0</version>", "<scope>test</scope>", "</dependency><dependency>",
    "<groupId>g</groupId>", "<artifactId>c</artifactId>", "<version>1.0</version>",
    "</dependency><dependency>", "<groupId>g</groupId>", "<artifactId>d</artifactId>",
    "<version>1.0</version>", "</dependency></dependencies>", "<dependencyManagement>",
    "<dependencies><dependency>", "<groupId>g</groupId>", "<artifactId>b</artifactId>",
    "<version>1.0</version>", "</dependency></dependencies>", "</dependencyManagement></project>"]

/-- The package `g:d` and what is needed by tests only are left alone. -/
def leavingAlone : SuggestOptions := ⟨true, ["g:d"], [], false⟩

/-- The lookups of all packages but `g:d` find the version `2.0`. -/
def foundButLast (package : Package) : Option Lookup :=
  if package.name = "g:d" then none else foundTwo package

/-- A package that is first required by a test is looked up where it is first needed, and a package
that is left alone is not missed. -/
theorem suggest_reads_only_packagesToFetch_later :
    ∃ m, Manifest.read (String.join neededLater) = .ok m ∧
      leavingAlone.packagesToFetch m = [.ofCoordinates "g" "c", .ofCoordinates "g" "b"] ∧
      (leavingAlone.suggest m foundButLast).patch.size = 2 ∧
      (leavingAlone.suggest m foundButLast).patch = (leavingAlone.suggest m foundTwo).patch ∧
      (leavingAlone.suggest m foundButLast).results =
        (leavingAlone.suggest m foundTwo).results ∧
      ∀ r, .skip r (.fetchFailed noLookupMessage) ∉
        (leavingAlone.suggest m foundButLast).results := by
  obtain ⟨m, hm, h⟩ := Manifest.exists_of_any neededLater (fun m =>
    leavingAlone.packagesToFetch m = [.ofCoordinates "g" "c", .ofCoordinates "g" "b"] ∧
      (leavingAlone.suggest m foundButLast).patch.size = 2) (by decide +kernel)
  obtain ⟨hpackages, hsize⟩ := of_decide_eq_true h
  obtain ⟨-, -, hagree, hcover⟩ := suggest_reads_only_packagesToFetch leavingAlone m
  rw [hpackages] at hagree hcover
  obtain ⟨hpatch, hresults⟩ := hagree foundButLast foundTwo (by decide)
  exact ⟨m, hm, hpackages, hsize, hpatch, hresults, hcover foundButLast (by decide)⟩

end SuggestOptions

/-! ## Plans -/

namespace UpgradePlan

/-- No requirement of a plan is skipped for want of a lookup, also where the lookups are cancelled
or go unanswered. -/
theorem noLookup_not_mem_results {o : SuggestOptions} {l : LookupPlan} {text : String}
    {plan : UpgradePlan} (h : make o l text = .ok plan) (r : Requirement) :
    .skip r (.fetchFailed SuggestOptions.noLookupMessage) ∉ plan.suggestion.results := by
  cases hread : Pom.read text with
  | error e =>
    rw [make, Manifest.read, hread] at h
    cases h
  | ok pom =>
    have hcover : ∀ p ∈ o.packagesToFetch (.ofPom pom),
        (l.lookup? o (.ofPom pom) p).isSome = true := by
      intro p hp
      rw [LookupPlan.lookup?, LookupPlan.outcomes, Batch.lookup_outcomes _ hp]
      rfl
    rw [make_eq o l hread] at h
    cases happly : applyPatch text (o.suggest (.ofPom pom) (l.lookup? o (.ofPom pom))).patch with
    | error e =>
      rw [happly] at h
      cases h
    | ok after =>
      rw [happly] at h
      obtain rfl := Except.ok.inj h
      exact SuggestOptions.noLookup_not_mem_results hcover r

end UpgradePlan

end MavenUpgrade

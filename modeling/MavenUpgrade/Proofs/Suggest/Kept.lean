import Mathlib
import MavenUpgrade.Proofs.Manifest.Reading
import MavenUpgrade.Proofs.Suggest.Written

/-!
# Requirements that are kept

A requirement that is skipped or pinned should have its version in the patched document too. A
pinned one has it always. A skipped one has it exactly when its text settles on it
(`SuggestOptions.keeps_version_iff`). Only the properties that a text names itself are considered
before a requirement is skipped: one that names none of them, but reaches one through the version
of the project, is moved unseen (`SuggestOptions.moves_behind_project`).
-/

namespace MavenUpgrade

/-! ## Skipping and pinning -/

/-- A requirement is pinned to the version that it has. -/
theorem Manifest.eq_resolved_of_pinned {m : Manifest} {patch : Patch} {r : Requirement}
    {j : Judgement} {version : String} (hj : j.Fits r)
    (h : m.outcome patch r j = .update r version .pinned) : version = r.resolved := by
  cases outcomeOf_of_eq hj h with
  | pinned hm => rfl

namespace SuggestOptions

/-- A skipped requirement that refers to declared properties is not moved by them. -/
theorem resolvePatched_of_skip {o : SuggestOptions} {m : Manifest} {patch : Patch}
    {r : Requirement} {l? : Option Lookup} {reason : SkipReason} (hu : r.isUnresolved = false)
    (hrefs : m.requirementRefs r ≠ []) (h : m.outcome patch r (o.judge r l?) = .skip r reason) :
    m.resolvePatched patch r.origin.scope r.declared = r.resolved := by
  have hj := o.fits_judge r l?
  generalize hjudge : o.judge r l? = j at h hj
  cases Manifest.outcomeOf_of_eq hj h with
  | unknown => exact absurd (unresolved_of_judge hjudge).1 (Bool.eq_false_iff.mp hu)
  | skipped hm =>
    by_contra hne
    exact hm ⟨hrefs, hne⟩

variable {text out : String} {pom : Pom} (o : SuggestOptions) (lookup? : Package → Option Lookup)

/-- **A pinned requirement has its version in the patched document. A skipped one has it exactly
when its text settles on it.** This is known from the document alone unless the version of the
parent changes, and it is so where the requirement refers to declared properties and can be
foreseen. -/
theorem keeps_version_iff (hread : Pom.read text = .ok pom)
    (hadmits : pom.Admits (o.suggest (.ofPom pom) lookup?).patch)
    (happly : applyPatch text (o.suggest (.ofPom pom) lookup?).patch = .ok out) :
    ∃ m', Manifest.read out = .ok m' ∧ ∀ i r, r.isUnresolved = false →
      (∀ reason, (o.suggest (.ofPom pom) lookup?).results[i]? = some (.skip r reason) →
        (m'.ResolvesTo i r r.resolved ↔
          pom.resolveSettled (o.suggest (.ofPom pom) lookup?).patch m'.toEnvironment r.origin.scope
            r.declared = r.resolved) ∧
        ((∀ d ∈ (o.suggest (.ofPom pom) lookup?).patch.dependencies, d.origin ≠ .parent) →
          (m'.ResolvesTo i r r.resolved ↔
            pom.resolveSettled (o.suggest (.ofPom pom) lookup?).patch (Manifest.environmentOf pom)
              r.origin.scope r.declared = r.resolved)) ∧
        ((Manifest.ofPom pom).requirementRefs r ≠ [] →
          pom.Foresees (o.suggest (.ofPom pom) lookup?).patch r → m'.ResolvesTo i r r.resolved)) ∧
      (∀ version, (o.suggest (.ofPom pom) lookup?).results[i]? = some (.update r version .pinned) →
        m'.ResolvesTo i r r.resolved) := by
  obtain ⟨m', hm', hf⟩ := Manifest.exists_follows hread hadmits happly
  refine ⟨m', hm', fun i r hu => ⟨fun reason h => ?_, fun version h => ?_⟩⟩
  · obtain ⟨hr, ho⟩ := o.exists_of_results lookup? h
    have hiff := hf.resolvesTo_of_none hr (o.dependency?_of_results lookup? h) r.resolved
    -- had the new values moved it, it would be pinned
    have hforeseen (hrefs : (Manifest.ofPom pom).requirementRefs r ≠ []) :=
      resolvePatched_of_skip hu hrefs ho
    refine ⟨hiff, fun hover => ?_, fun hrefs hsees => ?_⟩
    · rwa [hf.resolveSettled_self hover] at hiff
    · exact hiff.mpr ((hf.resolveSettled_eq hsees).trans (hforeseen hrefs))
  · obtain ⟨hr, ho⟩ := o.exists_of_results lookup? h
    obtain rfl := Manifest.eq_resolved_of_pinned (o.fits_judge r _) ho
    exact hf.resolvesTo_of_some hr (o.dependency?_of_results lookup? h) hu

/-! ## The version of the project -/

/-- The first of the two dependencies has a newer version. -/
def newerFirst (package : Package) : Option Lookup :=
  some (.found (if package.name = "g:b" then ["2.0"] else ["1.0"]))

/-- A version that is written out stays what it is. -/
theorem keeps_version_beside_newer :
    ∃ pom out m' r, Pom.read (String.join (twoDependencies "1" "1.0")) = .ok pom ∧
      applyPatch (String.join (twoDependencies "1" "1.0"))
        (free.suggest (.ofPom pom) newerFirst).patch = .ok out ∧
      Manifest.read out = .ok m' ∧
      (free.suggest (.ofPom pom) newerFirst).results[1]? = some (.skip r .alreadyLatest) ∧
      r.isUnresolved = false ∧ m'.ResolvesTo 1 r r.resolved := by
  obtain ⟨pom, hread, h⟩ := Pom.exists_of_any (twoDependencies "1" "1.0") (fun pom =>
    (Manifest.ofPom pom).requirements[1]?.any fun r =>
      pom.OnlySets (free.suggest (.ofPom pom) newerFirst).patch .root "v" "2.0" ∧
        (free.suggest (.ofPom pom) newerFirst).results[1]? = some (.skip r .alreadyLatest) ∧
        r.isUnresolved = false ∧ r.declared = "1.0" ∧ r.resolved = "1.0")
    (by decide +kernel)
  obtain ⟨r, -, h⟩ := (Option.any_eq_true _ _).mp h
  obtain ⟨hsets, hskip, hu, hdeclared, hresolved⟩ := of_decide_eq_true h
  obtain ⟨out, happly⟩ := hsets.exists_applyPatch hread
  obtain ⟨m', hm', hkeeps⟩ := free.keeps_version_iff newerFirst hread hsets.admits happly
  refine ⟨pom, out, m', r, hread, happly, hm', hskip, hu, ?_⟩
  rw [((hkeeps 1 r hu).1 _ hskip).1, Pom.resolveSettled, hdeclared, hresolved]
  exact Interpolation.interpolate_of_not_mentioned _ (by decide)

/-- A version that is written as that of the project moves with the property behind it, although
the dependency is skipped as being at its latest version. -/
theorem moves_behind_project :
    ∃ pom out m' r,
      Pom.read (String.join (twoDependencies "$\x7bv\x7d" "$\x7bproject.version\x7d")) = .ok pom ∧
      applyPatch (String.join (twoDependencies "$\x7bv\x7d" "$\x7bproject.version\x7d"))
        (free.suggest (.ofPom pom) newerFirst).patch = .ok out ∧
      Manifest.read out = .ok m' ∧
      (free.suggest (.ofPom pom) newerFirst).results[1]? = some (.skip r .alreadyLatest) ∧
      r.isUnresolved = false ∧ m'.ResolvesTo 1 r "2.0" ∧ ¬ m'.ResolvesTo 1 r r.resolved := by
  obtain ⟨pom, hread, h⟩ := Pom.exists_of_any
    (twoDependencies "$\x7bv\x7d" "$\x7bproject.version\x7d") (fun pom =>
      (Manifest.ofPom pom).requirements[1]?.any fun r =>
        pom.OnlySets (free.suggest (.ofPom pom) newerFirst).patch .root "v" "2.0" ∧
          (free.suggest (.ofPom pom) newerFirst).results[1]? = some (.skip r .alreadyLatest) ∧
          r.isUnresolved = false ∧ r.resolved = "1.0" ∧
          pom.resolveSettled (free.suggest (.ofPom pom) newerFirst).patch
            (Manifest.environmentOf pom) r.origin.scope r.declared = "2.0")
    (by decide +kernel)
  obtain ⟨r, hr, h⟩ := (Option.any_eq_true _ _).mp h
  obtain ⟨hsets, hskip, hu, hresolved, hvalue⟩ := of_decide_eq_true h
  obtain ⟨out, happly⟩ := hsets.exists_applyPatch hread
  obtain ⟨m', hm', hf⟩ := Manifest.exists_follows hread hsets.admits happly
  have hiff := hf.resolvesTo_of_none hr (hsets.dependency?_eq_none _ _)
  rw [hf.resolveSettled_self hsets.origin_ne_parent, hvalue] at hiff
  refine ⟨pom, out, m', r, hread, happly, hm', hskip, hu, (hiff "2.0").mpr rfl, ?_⟩
  rw [hresolved, hiff]
  decide

end SuggestOptions

end MavenUpgrade

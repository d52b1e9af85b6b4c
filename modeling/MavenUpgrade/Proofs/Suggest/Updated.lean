import Mathlib
import MavenUpgrade.Proofs.Manifest.Reading
import MavenUpgrade.Proofs.Suggest.Choice
import MavenUpgrade.Proofs.Suggest.Written
import MavenUpgrade.Proofs.Text.Trim

/-!
# Requirements that are updated

A requirement that is reported as updated has its new version in the patched document. Where the
patch replaces its own text this needs nothing else, since the new text is a version that was found
(`SuggestOptions.exists_of_upgrade`). Where a property carries the version, the requirement must be
foreseen (`SuggestOptions.updates_resolve`): of a property that is declared twice the first
declaration is edited and the last one counts (`SuggestOptions.update_lost_behind_last`).
-/

namespace MavenUpgrade

/-! ## Where a new version comes from -/

namespace Specifier

/-- The text of a specifier that is read lacks the blanks around it. -/
theorem text_of_read {text : String} {s : Specifier} (h : read text = .ok s) :
    s.text = Text.trimmed text := by
  unfold read at h
  dsimp only at h
  split at h
  · cases h
  · split at h
    · rw [VersionRange.read] at h
      cases hr : VersionRange.readIntervals (Text.trim (Text.trimmed text).toList) with
      | error fault =>
        rw [hr] at h
        cases h
      | ok intervals =>
        rw [hr] at h
        obtain rfl := Except.ok.inj h
        rfl
    · obtain rfl := Except.ok.inj h
      rfl

end Specifier

namespace Placeholder

/-- Without the blanks around it a text opens no more placeholders. -/
theorem not_mentioned_trimmed {text : String} (h : mentioned text = false) :
    mentioned (Text.trimmed text) = false := by
  refine not_mentioned_of_infix ?_ h
  rw [Text.trimmed, String.toList_ofList]
  exact ⟨_, _, Text.around_trim text.toList⟩

end Placeholder

namespace SuggestOptions

/-- An upgrade comes from versions that were found, among which another specifier is suggested. -/
theorem exists_suggested_of_upgrade {o : SuggestOptions} {r : Requirement} {found? : Option Lookup}
    {version : String} (h : o.judge r found? = .upgrade version) :
    ∃ current versions suggested, o.skipsEarly? r = none ∧ Specifier.read r.resolved = .ok current ∧
      found? = some (.found versions) ∧
      current.suggest? (o.eligible current versions) (o.forbidsMajorBump r.name) = some suggested ∧
      suggested.text = version := by
  cases judges_of_eq h with
  | upgraded hs hc hv hne => exact ⟨_, _, _, hs, hc, rfl, hv, rfl⟩

/-- A requirement that is not skipped early is resolved. -/
theorem not_isUnresolved_of_skipsEarly? {o : SuggestOptions} {r : Requirement}
    (h : o.skipsEarly? r = none) : r.isUnresolved = false := by
  rw [skipsEarly?] at h
  split_ifs at h with _ _ hu
  exact Bool.eq_false_iff.mpr hu

theorem mem_of_mem_eligible {o : SuggestOptions} {current : Specifier} {versions : List String}
    {v : String} (h : v ∈ o.eligible current versions) : v ∈ versions := by
  rw [eligible] at h
  split at h
  · exact List.mem_of_mem_filter h
  · exact h

/-- The new version of an upgrade has been found, or is the present one without the blanks around
it. -/
theorem exists_of_upgrade {o : SuggestOptions} {r : Requirement} {found? : Option Lookup}
    {version : String} (h : o.judge r found? = .upgrade version) :
    (∃ versions, found? = some (.found versions) ∧ version ∈ versions) ∨
      r.isUnresolved = false ∧ version = Text.trimmed r.resolved := by
  obtain ⟨current, versions, suggested, hs, hread, rfl, hsuggest, rfl⟩ :=
    exists_suggested_of_upgrade h
  rcases Specifier.eq_or_exists_of_suggest? hsuggest with rfl | ⟨best, hm, rfl⟩
  · -- a specifier that stays lacks the blanks around the text it was read from
    exact Or.inr ⟨not_isUnresolved_of_skipsEarly? hs, Specifier.text_of_read hread⟩
  · exact Or.inl ⟨versions, rfl, mem_of_mem_eligible hm⟩

end SuggestOptions

namespace Manifest

variable {m : Manifest} {patch : Patch} {r : Requirement} {j : Judgement} {version : String}

/-- An update other than one to the present version comes from a judgement for an upgrade. -/
theorem judge_of_update {via : Route} (hj : j.Fits r)
    (h : m.outcome patch r j = .update r version via) (hv : via ≠ .pinned) :
    j = .upgrade version := by
  cases outcomeOf_of_eq hj h with
  | pinned hm => exact absurd rfl hv
  | direct hne => rfl
  | carried hne hp hvalue => rfl

/-- An update that a property carries was foreseen. -/
theorem resolvePatched_of_property {scope : Scope} {name : String} (hj : j.Fits r)
    (h : m.outcome patch r j = .update r version (.property scope name)) :
    m.resolvePatched patch r.origin.scope r.declared = version := by
  cases outcomeOf_of_eq hj h with
  | carried hne hp hvalue => exact hvalue

end Manifest

/-! ## What becomes of updates -/

namespace SuggestOptions

variable {text out : String} {pom : Pom} (o : SuggestOptions) (lookup? : Package → Option Lookup)

/-- A version that some lookup has found. -/
def IsFound (lookup? : Package → Option Lookup) (version : String) : Prop :=
  ∃ package versions, lookup? package = some (.found versions) ∧ version ∈ versions

/-- The new version of an update opens no placeholder. -/
theorem not_mentioned_of_upgrade
    (hfound : ∀ version, IsFound lookup? version → Placeholder.mentioned version = false)
    {r : Requirement} {version : String}
    (h : o.judge r (lookup? r.package) = .upgrade version) :
    Placeholder.mentioned version = false := by
  rcases exists_of_upgrade h with ⟨versions, hl, hm⟩ | ⟨hu, rfl⟩
  · exact hfound version ⟨r.package, versions, hl, hm⟩
  · exact Placeholder.not_mentioned_trimmed hu

/-- **An updated requirement has its new version in the patched document**, provided that it can be
foreseen if a property carries the version. -/
theorem updates_resolve (hread : Pom.read text = .ok pom)
    (hfound : ∀ version, IsFound lookup? version →
      IsWritable version ∧ Placeholder.mentioned version = false)
    (hwritable : ∀ change ∈ (o.suggest (.ofPom pom) lookup?).patch.changes,
      IsFound lookup? change.2 ∨ IsWritable change.2)
    (hplain : pom.ReplacesPlain (o.suggest (.ofPom pom) lookup?).patch)
    (happly : applyPatch text (o.suggest (.ofPom pom) lookup?).patch = .ok out) :
    ∃ m', Manifest.read out = .ok m' ∧ ∀ i r version,
      ((o.suggest (.ofPom pom) lookup?).results[i]? = some (.update r version .direct) →
        m'.ResolvesTo i r version) ∧
      (∀ scope name,
        (o.suggest (.ofPom pom) lookup?).results[i]? =
          some (.update r version (.property scope name)) →
        pom.Foresees (o.suggest (.ofPom pom) lookup?).patch r → m'.ResolvesTo i r version) := by
  have hadmits : pom.Admits (o.suggest (.ofPom pom) lookup?).patch :=
    ⟨fun change hc => (hwritable change hc).elim (fun h => (hfound _ h).1) id, hplain⟩
  obtain ⟨m', hm', hf⟩ := Manifest.exists_follows hread hadmits happly
  refine ⟨m', hm', fun i r version => ⟨fun h => ?_, fun scope name h hsees => ?_⟩⟩
  · -- the new version is the text of the requirement
    obtain ⟨hr, ho⟩ := o.exists_of_results lookup? h
    have hj := Manifest.judge_of_update (o.fits_judge r _) ho Route.noConfusion
    exact hf.resolvesTo_of_some hr (o.dependency?_of_results lookup? h)
      (o.not_mentioned_of_upgrade lookup? (fun v hv => (hfound v hv).2) hj)
  · -- the requirement keeps its text, which settles on the new version
    obtain ⟨hr, ho⟩ := o.exists_of_results lookup? h
    refine (hf.resolvesTo_of_none hr (o.dependency?_of_results lookup? h) version).mpr
      ((hf.resolveSettled_eq hsees).trans ?_)
    exact Manifest.resolvePatched_of_property (o.fits_judge r _) ho

/-! ## A property that is declared twice -/

/-- Every package has one version. -/
def foundTwo (_ : Package) : Option Lookup :=
  some (.found ["2.0"])

/-- That version can be written, and opens no placeholder. -/
theorem isWritable_of_isFound_foundTwo {version : String} (h : IsFound foundTwo version) :
    IsWritable version ∧ Placeholder.mentioned version = false := by
  obtain ⟨package, versions, hl, hm⟩ := h
  obtain rfl : ["2.0"] = versions := Lookup.found.inj (Option.some.inj hl)
  obtain rfl := List.mem_singleton.mp hm
  decide

/-- A property that is declared once carries the version of the dependency that is written with
it. -/
theorem updates_resolve_of_single_property :
    ∃ pom out m' r, Pom.read (String.join (oneDependency "<v>1.0</v>" "$\x7bv\x7d")) = .ok pom ∧
      applyPatch (String.join (oneDependency "<v>1.0</v>" "$\x7bv\x7d"))
        (free.suggest (.ofPom pom) foundTwo).patch = .ok out ∧
      Manifest.read out = .ok m' ∧
      (free.suggest (.ofPom pom) foundTwo).results[0]? =
        some (.update r "2.0" (.property .root "v")) ∧
      m'.ResolvesTo 0 r "2.0" := by
  obtain ⟨pom, hread, h⟩ := Pom.exists_of_any (oneDependency "<v>1.0</v>" "$\x7bv\x7d")
    (fun pom => (Manifest.ofPom pom).requirements[0]?.any fun r =>
      pom.OnlySets (free.suggest (.ofPom pom) foundTwo).patch .root "v" "2.0" ∧
        (pom.declarationsOf .root "v").length ≤ 1 ∧
        (free.suggest (.ofPom pom) foundTwo).results[0]? =
          some (.update r "2.0" (.property .root "v")))
    (by decide +kernel)
  obtain ⟨r, -, h⟩ := (Option.any_eq_true _ _).mp h
  obtain ⟨hsets, honce, hupdate⟩ := of_decide_eq_true h
  obtain ⟨out, happly⟩ := hsets.exists_applyPatch hread
  obtain ⟨m', hm', hresolve⟩ := free.updates_resolve foundTwo hread
    (fun _ hv => isWritable_of_isFound_foundTwo hv)
    (fun change hc => Or.inr (hsets.admits.writable change hc)) hsets.admits.plain happly
  exact ⟨pom, out, m', r, hread, happly, hm', hupdate,
    (hresolve 0 r "2.0").2 .root "v" hupdate (hsets.foresees honce r)⟩

/-- Of a property that is declared twice the first declaration gets the new version, and the
dependency keeps the old one, although the version that was found can be written. -/
theorem update_lost_behind_last :
    ∃ pom out m' r,
      Pom.read (String.join (oneDependency "<v>1.0</v><v>1.0</v>" "$\x7bv\x7d")) = .ok pom ∧
      applyPatch (String.join (oneDependency "<v>1.0</v><v>1.0</v>" "$\x7bv\x7d"))
        (free.suggest (.ofPom pom) foundTwo).patch = .ok out ∧
      Manifest.read out = .ok m' ∧
      (free.suggest (.ofPom pom) foundTwo).results[0]? =
        some (.update r "2.0" (.property .root "v")) ∧
      (∀ version, IsFound foundTwo version →
        IsWritable version ∧ Placeholder.mentioned version = false) ∧
      m'.ResolvesTo 0 r "1.0" ∧ ¬ m'.ResolvesTo 0 r "2.0" := by
  obtain ⟨pom, hread, h⟩ := Pom.exists_of_any (oneDependency "<v>1.0</v><v>1.0</v>" "$\x7bv\x7d")
    (fun pom => (Manifest.ofPom pom).requirements[0]?.any fun r =>
      pom.OnlySets (free.suggest (.ofPom pom) foundTwo).patch .root "v" "2.0" ∧
        (free.suggest (.ofPom pom) foundTwo).results[0]? =
          some (.update r "2.0" (.property .root "v")) ∧
        pom.resolveSettled (free.suggest (.ofPom pom) foundTwo).patch (Manifest.environmentOf pom)
          r.origin.scope r.declared = "1.0")
    (by decide +kernel)
  obtain ⟨r, hr, h⟩ := (Option.any_eq_true _ _).mp h
  obtain ⟨hsets, hupdate, hvalue⟩ := of_decide_eq_true h
  obtain ⟨out, happly⟩ := hsets.exists_applyPatch hread
  obtain ⟨m', hm', hf⟩ := Manifest.exists_follows hread hsets.admits happly
  have hiff := hf.resolvesTo_of_none hr (hsets.dependency?_eq_none _ _)
  rw [hf.resolveSettled_self hsets.origin_ne_parent, hvalue] at hiff
  refine ⟨pom, out, m', r, hread, happly, hm', hupdate,
    fun _ hv => isWritable_of_isFound_foundTwo hv, (hiff "1.0").mpr rfl, ?_⟩
  rw [hiff]
  decide

end SuggestOptions

end MavenUpgrade

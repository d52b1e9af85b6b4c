import Mathlib
import MavenUpgrade.Proofs.Suggest.Updated

/-!
# Judging again

What is suggested for a specifier is suggested for itself too (`Specifier.suggest?_self`): a version
that was chosen has the major component that was asked for, so that the same versions are candidates
for it. A requirement that has the version it was upgraded to is therefore kept
(`SuggestOptions.judge_of_upgrade`).
-/

namespace MavenUpgrade

namespace Specifier

/-- For a candidate the same versions are candidates. -/
theorem candidates_of_mem {current : Specifier} {available : List String} {keepMajor : Bool}
    {best : String} (hranges : ∀ r, current = range r → r.intervals ≠ [])
    (h : best ∈ current.candidates available keepMajor) :
    (concrete best).candidates available keepMajor = current.candidates available keepMajor := by
  cases keepMajor with
  | false => rw [candidates_of_not_keepMajor, candidates_of_not_keepMajor]
  | true =>
    -- the candidates are those with the major component of a reference, which the best one has
    obtain ⟨reference, hr⟩ := Option.isSome_iff_exists.mp
      (isSome_reference? hranges (List.ne_nil_of_mem (mem_of_mem_candidates h)))
    rw [candidates_of_reference? hr] at h ⊢
    have hmajor : Major.ofText reference = Major.ofText best := by
      have hbump := (List.mem_filter.mp h).2
      simpa [isMajorBump] using hbump
    show (available.filter fun v => !isMajorBump best v) = _
    refine List.filter_congr fun v _ => ?_
    rw [isMajorBump, isMajorBump, hmajor]

/-- **What is suggested is suggested for itself.** -/
theorem suggest?_self {current suggested : Specifier} {available : List String}
    {keepMajor : Bool} (hranges : ∀ r, current = range r → r.intervals ≠ [])
    (h : current.suggest? available keepMajor = some suggested) :
    suggested.suggest? available keepMajor = some suggested := by
  obtain ⟨best, hb, hs⟩ := Option.map_eq_some_iff.mp h
  have hbest : (concrete best).suggest? available keepMajor = some (concrete best) := by
    rw [suggest?, candidates_of_mem hranges (Version.mem_of_latest? hb), hb, Option.map_some]
    show some (if Version.compareText best best = .gt then concrete best else concrete best) = _
    rw [ite_self]
  cases current with
  | concrete version =>
    dsimp only at hs
    split at hs
    · exact hs ▸ hbest
    · exact hs ▸ h
  | range r =>
    dsimp only at hs
    split at hs
    · exact hs ▸ h
    · exact hs ▸ hbest

/-- A specifier that is read is read from its own text too. -/
theorem read_text {text : String} {s : Specifier} (h : read text = .ok s) :
    read s.text = .ok s := by
  have ht : Text.trimmed (Text.trimmed text) = Text.trimmed text := by
    rw [Text.trimmed, Text.trimmed, String.toList_ofList, Text.isTrimmed_trim]
  rw [text_of_read h]
  unfold read at h ⊢
  rw [ht]
  exact h

/-- A version that is found is read as it is. -/
theorem read_of_isWritable {version : String} (hw : IsWritable version)
    (hb : beginsRange version = false) : read version = .ok (concrete version) := by
  have ht : Text.trimmed version = version := by
    have htrim : Text.trim version.toList = version.toList := hw.trimmed
    rw [Text.trimmed, htrim, String.ofList_toList]
  have hne : ¬ version.isEmpty = true := by
    rw [String.isEmpty_iff]
    rintro rfl
    exact hw.legible.ne_nil rfl
  unfold read
  rw [ht, if_neg hne, hb]
  rfl

end Specifier

/-! ## Judgements -/

namespace SuggestOptions

variable {o : SuggestOptions} {r r' : Requirement} {l? : Option Lookup}

/-- A judgement depends on the package of a requirement, the scopes that it names and the version
that it has. -/
theorem judge_congr (hp : r'.package = r.package) (ht : r'.scopeTags = r.scopeTags)
    (hr : r'.resolved = r.resolved) : o.judge r' l? = o.judge r l? := by
  cases r
  cases r'
  cases hp
  cases ht
  cases hr
  rfl

/-- Whether a requirement is skipped early depends on its version only as far as that is
unresolved. -/
theorem skipsEarly?_eq_none (hp : r'.package = r.package) (ht : r'.scopeTags = r.scopeTags)
    (hu : r'.isUnresolved = false) (h : o.skipsEarly? r = none) : o.skipsEarly? r' = none := by
  have hname : r'.name = r.name := congrArg Package.name hp
  have htags : r'.isNonProduction = r.isNonProduction := by
    rw [Requirement.isNonProduction, ht, Requirement.isNonProduction]
  rw [skipsEarly?] at h ⊢
  split_ifs at h with hx hn
  rw [hname, htags, hu, if_neg hx, if_neg hn]
  rfl

/-- **A requirement with the version it was upgraded to is kept**, where prereleases count. -/
theorem judge_of_upgrade {version : String} (hstable : o.stableOnly = false)
    (hfound : ∀ versions, l? = some (.found versions) → ∀ v ∈ versions,
      IsWritable v ∧ Specifier.beginsRange v = false)
    (h : o.judge r l? = .upgrade version) (hp : r'.package = r.package)
    (ht : r'.scopeTags = r.scopeTags) (hr : r'.resolved = version)
    (hu : Placeholder.mentioned version = false) :
    o.judge r' l? = .keep r' .alreadyLatest := by
  obtain ⟨current, versions, suggested, hs, hread, rfl, hsuggest, rfl⟩ :=
    exists_suggested_of_upgrade h
  have hs' : o.skipsEarly? r' = none :=
    skipsEarly?_eq_none hp ht (by rw [Requirement.isUnresolved, hr, hu]) hs
  have heligible (s : Specifier) : o.eligible s versions = versions := by
    rw [eligible, hstable]
    rfl
  have hname : r'.name = r.name := congrArg Package.name hp
  -- the new version is read back as the specifier that was suggested, which suggests itself
  have hread' : Specifier.read r'.resolved = .ok suggested := by
    rw [hr]
    rcases Specifier.eq_or_exists_of_suggest? hsuggest with rfl | ⟨best, hbest, rfl⟩
    · exact Specifier.read_text hread
    · obtain ⟨hw, hb⟩ := hfound versions rfl best (mem_of_mem_eligible hbest)
      exact Specifier.read_of_isWritable hw hb
  have hself : suggested.suggest? (o.eligible suggested versions) (o.forbidsMajorBump r'.name) =
      some suggested := by
    rw [heligible] at hsuggest ⊢
    rw [hname]
    refine Specifier.suggest?_self ?_ hsuggest
    rintro range rfl
    exact Specifier.intervals_ne_nil_of_read hread
  unfold judge
  rw [hs', hread']
  show o.judgeFound r' suggested versions = _
  rw [judgeFound, hself]
  exact if_pos hr.symm

end SuggestOptions

end MavenUpgrade

import Mathlib
import MavenUpgrade.Proofs.Manifest.Properties
import MavenUpgrade.Proofs.Manifest.Reading
import MavenUpgrade.Proofs.Suggest.Outcome
import MavenUpgrade.Proofs.Suggest.Kept

/-!
# Where version texts are replaced

The search for a changed property misses none on the way from a version text to its value
(`Manifest.resolvePatched_of_changedRef?_eq_none`). So the version text of a requirement is replaced
exactly when the changed properties do not give the requirement the version that it should have
(`Manifest.arbitrate_overrides_where_needed`).
-/

namespace MavenUpgrade

/-! ## Coordinates -/

/-- None of the coordinates opens a placeholder. -/
structure Coordinates.IsLiteral (c : Coordinates) : Prop where
  groupId : Placeholder.mentioned c.groupId = false
  artifactId : Placeholder.mentioned c.artifactId = false
  version : Placeholder.mentioned c.version = false

namespace Environment

/-- Neither the coordinates of the project nor those of its parent open a placeholder. -/
structure HasLiteralCoordinates (env : Environment) : Prop where
  root : env.root.IsLiteral
  parent : ∀ c, env.parent? = some c → c.IsLiteral

/-- The values that a project has without declaring them are literal if its coordinates are. -/
theorem HasLiteralCoordinates.not_mentioned {env : Environment} (h : env.HasLiteralCoordinates)
    {name value : String} (hv : env.builtin? name = some value) :
    Placeholder.mentioned value = false := by
  unfold builtin? at hv
  split at hv
  case h_1 | h_2 | h_3 =>
    rw [← Option.some.inj hv]
    exact h.root.version
  case h_4 =>
    rw [← Option.some.inj hv]
    exact h.root.groupId
  case h_5 =>
    rw [← Option.some.inj hv]
    exact h.root.artifactId
  case h_6 =>
    obtain ⟨c, hc, rfl⟩ := Option.map_eq_some_iff.mp hv
    exact (h.parent c hc).version
  case h_7 =>
    obtain ⟨c, hc, rfl⟩ := Option.map_eq_some_iff.mp hv
    exact (h.parent c hc).groupId
  case h_8 => cases hv

/-- A property that a text refers to is declared. -/
theorem isSome_get?_of_mem_refs {env : Environment} {scope : Scope} {text : String}
    {p : PropertyRef} (h : p ∈ env.refs scope text) :
    (env.properties.get? p.scope p.name).isSome = true :=
  isSome_get?_of_locate? ((env.mem_refs_iff scope text p).mp h).2

end Environment

/-! ## The search for a changed property -/

namespace Manifest

variable {m : Manifest} {patch : Patch} {scope : Scope}

/-- Properties of which none is changed, and whose values refer to no others. -/
structure IsUnchanged (m : Manifest) (patch : Patch) (scope : Scope) (ps : List PropertyRef) :
    Prop where
  silent : ∀ p ∈ ps, patch.property? p.scope p.name = none
  closed : ∀ p ∈ ps, ∀ q ∈ m.refs scope (m.rawValue p), q ∈ ps

/-- What holds whenever the search goes on: the properties that are still to be looked at are among
those met so far, and those that have been looked at are not changed and lead to properties that
have been met. -/
structure Searching (m : Manifest) (patch : Patch) (scope : Scope)
    (seen queue : List PropertyRef) : Prop where
  queued : ∀ p ∈ queue, p ∈ seen
  nodup : seen.Nodup
  declared : ∀ p ∈ seen, (m.properties.get? p.scope p.name).isSome = true
  silent : ∀ p ∈ seen, p ∉ queue → patch.property? p.scope p.name = none
  closed : ∀ p ∈ seen, p ∉ queue → ∀ q ∈ m.refs scope (m.rawValue p), q ∈ seen

/-- The search starts with the properties that a text refers to. -/
theorem searching_refs (m : Manifest) (patch : Patch) (scope : Scope) (text : String) :
    m.Searching patch scope (m.refs scope text) (m.refs scope text) where
  queued := fun _ hp => hp
  nodup := m.nodup_refs scope text
  declared := fun _ hp => Environment.isSome_get?_of_mem_refs hp
  silent := fun _ hp hq => absurd hp hq
  closed := fun _ hp hq => absurd hp hq

/-- The search goes on from a property that is not changed. -/
theorem Searching.step {seen queue : List PropertyRef} {p : PropertyRef}
    (h : m.Searching patch scope seen (p :: queue))
    (hp : patch.property? p.scope p.name = none) :
    m.Searching patch scope (seen ++ (m.refs scope (m.rawValue p)).filter (· ∉ seen))
      (queue ++ (m.refs scope (m.rawValue p)).filter (· ∉ seen)) where
  queued := by
    intro q hq
    rcases List.mem_append.mp hq with hq | hq
    · exact List.mem_append_left _ (h.queued q (List.mem_cons_of_mem _ hq))
    · exact List.mem_append_right _ hq
  nodup := by
    rw [List.nodup_append]
    refine ⟨h.nodup, (m.nodup_refs scope _).filter _, fun q hq q' hq' he => ?_⟩
    have hnew := of_decide_eq_true (List.mem_filter.mp hq').2
    rw [he] at hq
    exact hnew hq
  declared := by
    intro q hq
    rcases List.mem_append.mp hq with hq | hq
    · exact h.declared q hq
    · exact Environment.isSome_get?_of_mem_refs (List.mem_of_mem_filter hq)
  silent := by
    intro q hq hnot
    rw [List.mem_append, not_or] at hnot
    have hseen := (List.mem_append.mp hq).resolve_right hnot.2
    by_cases he : q = p
    · rw [he, hp]
    · exact h.silent q hseen fun hm => (List.mem_cons.mp hm).elim he hnot.1
  closed := by
    intro q hq hnot q' hq'
    rw [List.mem_append, not_or] at hnot
    have hseen := (List.mem_append.mp hq).resolve_right hnot.2
    by_cases hmet : q' ∈ seen
    · exact List.mem_append_left _ hmet
    · by_cases he : q = p
      · rw [he] at hq'
        exact List.mem_append_right _ (List.mem_filter.mpr ⟨hq', decide_eq_true hmet⟩)
      · refine absurd (h.closed q hseen ?_ q' hq') hmet
        exact fun hm => (List.mem_cons.mp hm).elim he hnot.1

/-- **A search that finds nothing has met properties of which none is changed**, and whose values
refer to no others. There are no more of them than the manifest declares, so that the search does
not end before. -/
theorem Searching.exists_isUnchanged {fuel : Nat} {seen queue : List PropertyRef}
    (h : m.Searching patch scope seen queue)
    (hfuel : queue.length + m.properties.size ≤ fuel + seen.length)
    (hnone : m.firstChanged? patch scope fuel seen queue = none) :
    ∃ ps, (∀ p ∈ seen, p ∈ ps) ∧ m.IsUnchanged patch scope ps := by
  have hdone {seen : List PropertyRef} (h : m.Searching patch scope seen []) :
      ∃ ps, (∀ p ∈ seen, p ∈ ps) ∧ m.IsUnchanged patch scope ps :=
    ⟨seen, fun _ hp => hp, fun p hp => h.silent p hp List.not_mem_nil,
      fun p hp => h.closed p hp List.not_mem_nil⟩
  induction fuel generalizing seen queue with
  | zero =>
    have hsize := PropertySet.length_le_size h.nodup h.declared
    have hqueue : queue = [] := List.eq_nil_of_length_eq_zero (by omega)
    rw [hqueue] at h
    exact hdone h
  | succ fuel ih =>
    cases queue with
    | nil => exact hdone h
    | cons p queue =>
      rw [firstChanged?] at hnone
      split at hnone
      · cases hnone
      · next hp =>
        rw [Bool.not_eq_true, Option.isSome_eq_false_iff, Option.isNone_iff_eq_none] at hp
        obtain ⟨ps, hps, hunchanged⟩ := ih (h.step hp) (by
          rw [List.length_append, List.length_append]
          rw [List.length_cons] at hfuel
          omega) hnone
        exact ⟨ps, fun q hq => hps q (List.mem_append_left _ hq), hunchanged⟩

/-- What is found is a property that the patch changes. -/
theorem isSome_property?_of_firstChanged? {fuel : Nat} {seen queue : List PropertyRef}
    {p : PropertyRef} (h : m.firstChanged? patch scope fuel seen queue = some p) :
    (patch.property? p.scope p.name).isSome = true := by
  induction fuel generalizing seen queue with
  | zero => cases h
  | succ fuel ih =>
    cases queue with
    | nil => cases h
    | cons q queue =>
      rw [firstChanged?] at h
      split at h
      · next hq =>
        obtain rfl := Option.some.inj h
        exact hq
      · exact ih h

/-- A requirement for which no changed property is found refers to properties of which none is
changed, and whose values refer to no others. -/
theorem exists_isUnchanged_of_changedRef?_eq_none {r : Requirement}
    (h : m.changedRef? patch r = none) :
    ∃ ps, (∀ p ∈ m.requirementRefs r, p ∈ ps) ∧ m.IsUnchanged patch r.origin.scope ps := by
  refine (m.searching_refs patch r.origin.scope r.declared).exists_isUnchanged ?_ h
  show (m.requirementRefs r).length + _ ≤ _ + (m.requirementRefs r).length
  omega

/-! ## What a text reaches -/

/-- Among properties whose values refer to no others, a text that refers to them reaches none but
them. -/
theorem IsUnchanged.mem_of_reaches {ps : List PropertyRef} {text name : String} {found : Scope}
    (h : m.IsUnchanged patch scope ps) (hcoordinates : m.HasLiteralCoordinates)
    (hreach : Interpolation.Reaches (m.lookup? scope) text name)
    (htext : ∀ p ∈ m.refs scope text, p ∈ ps)
    (hlocate : m.properties.locate? scope name = some found) : ⟨found, name⟩ ∈ ps := by
  induction hreach with
  | named hn => exact htext _ ((m.mem_refs_iff _ _ _).mpr ⟨hn, hlocate⟩)
  | @through text between value inner hn hv hi ih =>
    refine ih ?_ hlocate
    rw [Environment.lookup?] at hv
    cases hbetween : m.properties.locate? scope between with
    | none =>
      -- a value that is not declared leads no further
      rw [hbetween] at hv
      exact absurd hi (Interpolation.not_reaches_of_not_mentioned _
        (hcoordinates.not_mentioned hv))
    | some s =>
      have hmem := htext _ ((m.mem_refs_iff _ _ ⟨s, between⟩).mpr ⟨hn, hbetween⟩)
      obtain ⟨raw, hraw⟩ :=
        Option.isSome_iff_exists.mp (Environment.isSome_get?_of_locate? hbetween)
      rw [hbetween, Option.bind_some, hraw, Option.some_or] at hv
      have hvalue : m.rawValue ⟨s, between⟩ = value := by
        rw [Environment.rawValue, hraw, ← Option.some.inj hv]
        rfl
      intro q hq
      rw [← hvalue] at hq
      exact h.closed _ hmem q hq

/-- **A requirement for which no changed property is found keeps its version.** -/
theorem resolvePatched_of_changedRef?_eq_none {r : Requirement}
    (hcoordinates : m.HasLiteralCoordinates) (h : m.changedRef? patch r = none) :
    m.resolvePatched patch r.origin.scope r.declared =
      m.resolve r.origin.scope r.declared := by
  obtain ⟨ps, hps, hunchanged⟩ := exists_isUnchanged_of_changedRef?_eq_none h
  refine (Interpolation.interpolate_congr fun name hreach => ?_).symm
  rw [Environment.lookupPatched?]
  cases hlocate : m.properties.locate? r.origin.scope name with
  | none => rfl
  | some found =>
    have hmem := hunchanged.mem_of_reaches hcoordinates hreach hps hlocate
    rw [Option.bind_some, hunchanged.silent _ hmem, Option.none_or]

end Manifest

/-! ## Overrides -/

/-- Each requirement receives a judgement that fits it. -/
theorem SuggestOptions.fits_judgements (o : SuggestOptions) (m : Manifest)
    (lookup? : Package → Option Lookup) :
    List.Forall₂ Judgement.Fits m.requirements (o.judgements m lookup?) := by
  rw [judgements, List.forall₂_map_right_iff, List.forall₂_same]
  intro r _
  exact o.fits_judge r (lookup? r.package)

namespace Manifest

variable {m : Manifest} {patch : Patch}

/-- The override that a requirement needs under a patch: one by the version that it should have,
unless its text comes to this version already. -/
def neededOverride? (m : Manifest) (patch : Patch) (r : Requirement) (j : Judgement) :
    Option DependencyPatch :=
  j.desired?.bind fun desired =>
    if m.resolvePatched patch r.origin.scope r.declared = desired then none
    else some ⟨r.package, r.origin, desired⟩

theorem neededOverride?_eq_some_iff {r : Requirement} {j : Judgement} {d : DependencyPatch} :
    m.neededOverride? patch r j = some d ↔ ∃ desired, j.desired? = some desired ∧
      m.resolvePatched patch r.origin.scope r.declared ≠ desired ∧
        d = ⟨r.package, r.origin, desired⟩ := by
  rw [neededOverride?, Option.bind_eq_some_iff]
  refine exists_congr fun desired => and_congr_right fun _ => ?_
  rw [Option.ite_none_left_eq_some, Option.some_inj, eq_comm (a := d)]

/-- A requirement that refers to no declared property finds no changed one. -/
theorem changedRef?_of_requirementRefs_eq_nil {r : Requirement} (h : m.requirementRefs r = []) :
    m.changedRef? patch r = none := by
  show m.firstChanged? patch r.origin.scope _ (m.requirementRefs r) (m.requirementRefs r) = none
  rw [h]
  cases ([] : List PropertyRef).length + m.properties.size with
  | zero => rfl
  | succ n => rfl

/-- **The outcome of a requirement asks for an override exactly where it is needed.** -/
theorem overrideOf?_outcome {r : Requirement} {j : Judgement}
    (hcoordinates : m.HasLiteralCoordinates)
    (hresolved : r.resolved = m.resolve r.origin.scope r.declared) (hj : j.Fits r) :
    overrideOf? (m.outcome patch r j) = m.neededOverride? patch r j := by
  -- where no changed property is found, the version stays what it is
  have hstays (h : m.changedRef? patch r = none) :
      m.resolvePatched patch r.origin.scope r.declared = r.resolved := by
    rw [hresolved]
    exact resolvePatched_of_changedRef?_eq_none hcoordinates h
  cases hj with
  | unknown reason => rfl
  | kept reason =>
    rw [outcome_keep]
    show _ = if m.resolvePatched patch r.origin.scope r.declared = r.resolved then none
      else some (DependencyPatch.mk r.package r.origin r.resolved)
    by_cases hmoved : m.IsMoved patch r
    · rw [if_pos hmoved, if_neg hmoved.2]
      rfl
    · have hsame : m.resolvePatched patch r.origin.scope r.declared = r.resolved := by
        by_contra hne
        exact hmoved ⟨fun hrefs => hne (hstays (changedRef?_of_requirementRefs_eq_nil hrefs)), hne⟩
      rw [if_neg hmoved, if_pos hsame]
      rfl
  | upgraded version hne =>
    show overrideOf? (if m.followsProperties patch r version then _ else _) =
      if m.resolvePatched patch r.origin.scope r.declared = version then none
      else some (DependencyPatch.mk r.package r.origin version)
    by_cases hfollows : m.followsProperties patch r version = true
    · obtain ⟨-, hversion⟩ := (m.followsProperties_iff patch r version).mp hfollows
      rw [if_pos hfollows, if_pos hversion]
      cases hfound : m.changedRef? patch r with
      | none => exact absurd (hversion.symm.trans (hstays hfound)) hne
      | some p => rfl
    · have hother : m.resolvePatched patch r.origin.scope r.declared ≠ version := by
        intro hversion
        refine hfollows ((m.followsProperties_iff patch r version).mpr ⟨fun hrefs => ?_, hversion⟩)
        exact hne (hversion.symm.trans (hstays (changedRef?_of_requirementRefs_eq_nil hrefs)))
      rw [if_neg hfollows, if_neg hother]
      rfl

/-- The overrides of a manifest are those that its requirements need, in their order. -/
theorem dependencies_arbitrate {js : Judgements} (hcoordinates : m.HasLiteralCoordinates)
    (hresolved : ∀ r ∈ m.requirements, r.resolved = m.resolve r.origin.scope r.declared)
    (hjs : List.Forall₂ Judgement.Fits m.requirements js) :
    (m.arbitrate js).dependencies = (m.requirements.zip js).filterMap fun (r, j) =>
      m.neededOverride? (m.arbitrate js) r j := by
  rw [dependencies_eq]
  refine List.filterMap_congr fun ⟨r, j⟩ hmem => ?_
  show overrideOf? (m.outcome (m.propertyPatch js) r j) = m.neededOverride? (m.propertyPatch js) r j
  exact overrideOf?_outcome hcoordinates (hresolved r (List.of_mem_zip hmem).1)
    ((List.forall₂_iff_zip.mp hjs).2 hmem)

/-- An outcome that names a property names one that the patch changes. -/
theorem exists_property?_of_mem_outcomes {js : Judgements}
    (hjs : List.Forall₂ Judgement.Fits m.requirements js) {r : Requirement} {scope : Scope}
    {version name : String} (h : .update r version (.property scope name) ∈ m.outcomes js) :
    ∃ value, (m.arbitrate js).property? scope name = some value := by
  obtain ⟨⟨r', j⟩, hmem, he⟩ := List.mem_map.mp h
  cases outcomeOf_of_eq ((List.forall₂_iff_zip.mp hjs).2 hmem) he with
  | @carried _ p hne hp hv =>
    have hchanged : ((m.propertyPatch js).property? p.scope p.name).isSome = true :=
      isSome_property?_of_firstChanged? hp
    exact Option.isSome_iff_exists.mp hchanged

/-- An override of a requirement is one that it needs. -/
theorem key_of_neededOverride? {r : Requirement} {j : Judgement} {d : DependencyPatch}
    (h : m.neededOverride? patch r j = some d) : (d.package, d.origin) = r.key := by
  obtain ⟨desired, -, -, rfl⟩ := neededOverride?_eq_some_iff.mp h
  rfl

variable {js : Judgements}

/-- The requirements of a manifest have different keys. -/
theorem nodup_keys_of_read {text : String} (hm : read text = .ok m) :
    (m.requirements.map (·.key)).Nodup := by
  obtain ⟨pom, -, rfl⟩ := exists_of_read hm
  exact nodup_keys pom

/-- **A version text is replaced exactly where this is needed**: where the changed properties do
not give a requirement the version that it should have, if one is known. The overrides stand in the
order of the requirements, none is overridden twice, and each outcome that names a property names
one that is changed. -/
theorem arbitrate_overrides_where_needed {text : String} (hm : read text = .ok m)
    (hcoordinates : m.HasLiteralCoordinates)
    (hjs : List.Forall₂ Judgement.Fits m.requirements js) :
    (m.arbitrate js).dependencies = ((m.requirements.zip js).filterMap fun (r, j) =>
        m.neededOverride? (m.arbitrate js) r j) ∧
      ((m.arbitrate js).dependencies.map fun d => (d.package, d.origin)).Nodup ∧
      (∀ (i : Nat) (r : Requirement) (j : Judgement), m.requirements[i]? = some r →
        js[i]? = some j → ∀ d : DependencyPatch,
        (d ∈ (m.arbitrate js).dependencies ∧ d.package = r.package ∧ d.origin = r.origin) ↔
          ∃ desired, j.desired? = some desired ∧
            m.resolvePatched (m.arbitrate js) r.origin.scope r.declared ≠ desired ∧
              d = ⟨r.package, r.origin, desired⟩) ∧
      ∀ r version scope name, .update r version (.property scope name) ∈ m.outcomes js →
        ∃ value, (m.arbitrate js).property? scope name = some value := by
  have hoverrides := dependencies_arbitrate hcoordinates (fun r hr => resolved_of_mem hm hr) hjs
  have hkeys := nodup_keys_of_read hm
  have hkey (r : Requirement) (j : Judgement) (d : DependencyPatch) :
      m.neededOverride? (m.arbitrate js) r j = some d → (d.package, d.origin) = r.key :=
    key_of_neededOverride?
  refine ⟨hoverrides, ?_, fun i r j hr hj d => ?_, fun r version scope name h => ?_⟩
  · rw [hoverrides]
    exact nodup_overrides hkeys hkey hjs.length_eq.le
  · rw [hoverrides, mem_overrides_iff hkeys hkey hr hj]
    exact neededOverride?_eq_some_iff
  · exact exists_property?_of_mem_outcomes hjs h

/-- Of two dependencies on one property the second one is at its latest version and does not follow
the property to the newer one: its version text is replaced by the version that it keeps. -/
theorem arbitrate_overrides_left_behind :
    ∃ m r, read (String.join (twoDependencies "1" "$\x7bv\x7d")) = .ok m ∧
      m.HasLiteralCoordinates ∧ m.requirements[1]? = some r ∧ r.declared = "$\x7bv\x7d" ∧
      m.resolvePatched (m.arbitrate (SuggestOptions.free.judgements m SuggestOptions.newerFirst))
        r.origin.scope r.declared = "2.0" ∧
      ⟨r.package, r.origin, "1.0"⟩ ∈ (m.arbitrate (SuggestOptions.free.judgements m
        SuggestOptions.newerFirst)).dependencies := by
  obtain ⟨m, hm, h⟩ := exists_of_any (twoDependencies "1" "$\x7bv\x7d") (fun m =>
    m.requirements[1]?.any fun r =>
      (m.parent? = none ∧ Placeholder.mentioned m.root.groupId = false ∧
        Placeholder.mentioned m.root.artifactId = false ∧
        Placeholder.mentioned m.root.version = false) ∧ r.declared = "$\x7bv\x7d" ∧
      m.resolvePatched (m.arbitrate (SuggestOptions.free.judgements m SuggestOptions.newerFirst))
        r.origin.scope r.declared = "2.0" ∧
      SuggestOptions.free.judge r (SuggestOptions.newerFirst r.package) =
        ⟨some "1.0", some .alreadyLatest⟩)
    (by decide +kernel)
  obtain ⟨r, hr, h⟩ := (Option.any_eq_true _ _).mp h
  obtain ⟨⟨hparent, hgroup, hartifact, hversion⟩, hdeclared, hvalue, hjudge⟩ := of_decide_eq_true h
  have hcoordinates : m.HasLiteralCoordinates :=
    ⟨⟨hgroup, hartifact, hversion⟩, fun c hc => by rw [hparent] at hc; cases hc⟩
  have hj : (SuggestOptions.free.judgements m SuggestOptions.newerFirst)[1]? =
      some ⟨some "1.0", some .alreadyLatest⟩ := by
    rw [SuggestOptions.judgements, List.getElem?_map, hr, Option.map_some, hjudge]
  obtain ⟨-, -, hneeded, -⟩ := arbitrate_overrides_where_needed hm hcoordinates
    (SuggestOptions.free.fits_judgements m SuggestOptions.newerFirst)
  refine ⟨m, r, hm, hcoordinates, hr, hdeclared, hvalue, ?_⟩
  refine ((hneeded 1 r _ hr hj _).mpr ⟨"1.0", rfl, ?_, rfl⟩).1
  rw [hvalue]
  decide

end Manifest

end MavenUpgrade

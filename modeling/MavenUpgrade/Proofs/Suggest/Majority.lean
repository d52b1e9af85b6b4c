import Mathlib
import MavenUpgrade.Proofs.Suggest.Overrides
import MavenUpgrade.Proofs.Suggest.Targets

/-!
# The majority of the members

A property that is not written through others gets the value that its members choose
(`Manifest.property?_propertyPatch_iff`). A member that this value suits comes to the version that
it should have, so that its version text is kept (`Manifest.arbitrate_follows_majority`).
-/

namespace MavenUpgrade

/-! ## The members of a property -/

namespace Manifest

variable {m : Manifest} {js : Judgements} {p : PropertyRef} {r : Requirement} {j : Judgement}
  {v : Voter} {value : String}

/-- The members of a property are requirements that refer to it. -/
theorem exists_requirement_of_mem_voters (h : v ∈ m.voters js p) :
    ∃ r ∈ m.requirements, p ∈ m.requirementRefs r ∧ m.memberTemplate? r = some v.template := by
  obtain ⟨⟨r, j⟩, hmem, hv⟩ := List.mem_filterMap.mp h
  obtain ⟨hp, hv⟩ := Option.ite_none_right_eq_some.mp hv
  exact ⟨r, (List.of_mem_zip hmem).1, hp, (voter?_eq_some_iff.mp hv).1⟩

/-- The template of a member holds the placeholder of the property. -/
theorem mem_placeholders_of_mem_voters (h : v ∈ m.voters js p) :
    p.name ∈ v.template.placeholders := by
  obtain ⟨r, -, hp, ht⟩ := exists_requirement_of_mem_voters h
  rw [Template.mem_placeholders_iff, segments_of_memberTemplate? ht, placeholder_mem_openPieces_iff]
  exact List.mem_map_of_mem hp

/-- The members of a property choose nothing exactly when none of them has a match. -/
theorem chooseValue?_voters_eq_none_iff :
    Voter.chooseValue? (m.voters js p) p.name = none ↔
      ∀ v ∈ m.voters js p, v.template.matches? v.desired = none := by
  rw [Voter.chooseValue?_eq_none_iff]
  exact forall₂_congr fun v hv => forall_prop_of_true (mem_placeholders_of_mem_voters hv)

/-- A property whose members choose a value is used. -/
theorem mem_usedProperties_of_chooseValue?
    (h : Voter.chooseValue? (m.voters js p) p.name = some value) : p ∈ m.usedProperties := by
  obtain ⟨v, hv, -⟩ := Voter.exists_of_chooseValue? h
  obtain ⟨r, hr, hp, -⟩ := exists_requirement_of_mem_voters hv
  rw [usedProperties, mem_distinct]
  exact List.mem_flatMap.mpr ⟨r, hr, hp⟩

/-! ## The value that a property gets -/

/-- A property that is not written through others is changed if there is a vote on it. -/
theorem isSome_property?_foldl_of_mem {votes : List (PropertyRef × String)} {patch : Patch}
    (hp : m.isDerived p = false) (h : (p, value) ∈ votes) :
    ((votes.foldl m.applyVote patch).property? p.scope p.name).isSome = true := by
  obtain ⟨before, after, rfl⟩ := List.append_of_mem h
  rw [List.foldl_append, List.foldl_cons]
  refine m.isSome_property?_foldl_applyVote ?_ after
  rw [applyVote, hp, Bool.false_and, if_neg Bool.false_ne_true, Patch.property?_setProperty,
    if_pos ⟨rfl, rfl⟩]
  rfl

/-- **A property that is not written through others gets the value that its members choose, unless
it has this value.** -/
theorem property?_propertyPatch_iff (hp : m.isDerived p = false) :
    (m.propertyPatch js).property? p.scope p.name = some value ↔
      Voter.chooseValue? (m.voters js p) p.name = some value ∧ m.propertyValue? p ≠ some value := by
  constructor
  · intro h
    obtain ⟨current, hcurrent, hchosen, hne⟩ :=
      (m.newValue?_eq_some_iff js p value).mp (newValue?_of_property? h).2
    refine ⟨hchosen, fun he => hne ?_⟩
    rw [hcurrent] at he
    exact (Option.some.inj he).symm
  · rintro ⟨hchosen, hne⟩
    have hused := mem_usedProperties_of_chooseValue? hchosen
    obtain ⟨current, hcurrent⟩ :=
      Option.isSome_iff_exists.mp (isSome_propertyValue?_of_mem_usedProperties hused)
    have hnew : m.newValue? js p = some value := by
      refine (m.newValue?_eq_some_iff js p value).mpr ⟨current, hcurrent, hchosen, ?_⟩
      rintro rfl
      exact hne hcurrent
    have hvote : (p, value) ∈ m.propertyVotes js :=
      List.mem_filterMap.mpr ⟨p, hused, by rw [hnew]; rfl⟩
    have hliteral : (p, value) ∈ (m.propertyVotes js).filter fun vote => !m.isDerived vote.1 :=
      List.mem_filter.mpr ⟨hvote, by rw [hp]; rfl⟩
    have hchanged : ((m.propertyPatch js).property? p.scope p.name).isSome = true :=
      isSome_property?_foldl_of_mem hp (List.mem_append_left _ hliteral)
    obtain ⟨other, hother⟩ := Option.isSome_iff_exists.mp hchanged
    -- it is changed to this value, since that is the only new one
    have hnew' := (newValue?_of_property? hother).2
    rw [← Option.some.inj (hnew.symm.trans hnew')] at hother
    exact hother

/-- A property that is not written through others has its own text as its value. -/
theorem propertyValue?_of_literal (hp : m.isDerived p = false) :
    m.propertyValue? p = m.properties.get? p.scope p.name := by
  rw [Environment.propertyValue?]
  cases hget : m.properties.get? p.scope p.name with
  | none => rfl
  | some raw =>
    have hraw : m.rawValue p = raw := by
      rw [Environment.rawValue, hget]
      rfl
    rw [isDerived, hraw] at hp
    rw [Option.map_some, Environment.resolve, Interpolation.interpolate_of_not_mentioned _ hp]

/-- A requirement sees a property that it refers to with the value that a patch gives it, or else
with the value that it has. -/
theorem lookupPatched?_of_mem_requirementRefs {patch : Patch} (hr : p ∈ m.requirementRefs r)
    (hp : m.isDerived p = false) :
    m.lookupPatched? patch r.origin.scope p.name =
      (patch.property? p.scope p.name).or (m.lookup? r.origin.scope p.name) ∧
    m.lookup? r.origin.scope p.name = m.propertyValue? p := by
  have hlocate := ((m.mem_refs_iff _ _ p).mp hr).2
  obtain ⟨raw, hraw⟩ := Option.isSome_iff_exists.mp (Environment.isSome_get?_of_locate? hlocate)
  constructor
  · rw [Environment.lookupPatched?, hlocate, Option.bind_some]
  · rw [propertyValue?_of_literal hp, Environment.lookup?, hlocate, Option.bind_some, hraw,
      Option.some_or]

/-- **A requirement sees a property with the value that its members choose**, and it did so before
if the property is not changed. -/
theorem lookupPatched?_of_chooseValue? (hr : p ∈ m.requirementRefs r) (hp : m.isDerived p = false)
    (h : Voter.chooseValue? (m.voters js p) p.name = some value) :
    m.lookupPatched? (m.propertyPatch js) r.origin.scope p.name = some value ∧
      ((m.propertyPatch js).property? p.scope p.name = none →
        m.lookup? r.origin.scope p.name = some value) := by
  obtain ⟨hpatched, hlookup⟩ := lookupPatched?_of_mem_requirementRefs hr hp
  by_cases hvalue : m.propertyValue? p = some value
  · have hkept : (m.propertyPatch js).property? p.scope p.name = none := by
      rw [Option.eq_none_iff_forall_ne_some]
      intro other hother
      obtain ⟨hother, hne⟩ := (property?_propertyPatch_iff hp).mp hother
      rw [Option.some.inj (h.symm.trans hother)] at hvalue
      exact hne hvalue
    rw [hpatched, hkept, Option.none_or, hlookup, hvalue]
    exact ⟨rfl, fun _ => rfl⟩
  · have hchanged := (property?_propertyPatch_iff hp).mpr ⟨h, hvalue⟩
    rw [hpatched, hchanged]
    exact ⟨rfl, fun hnone => by cases hnone⟩

/-! ## Members that the value suits -/

/-- A value that suits a member whose version text names nothing else makes this text up to the
text that the member should come to. -/
theorem filling_declared_of_isSuitedBy (hr : p ∈ m.requirementRefs r)
    (honly : ∀ n ∈ Placeholder.names r.declared, n = p.name) (hv : m.voter? r j = some v)
    (hsuits : v.isSuitedBy p.name value = true) :
    Template.filling (fun _ => some value) (Template.ofText r.declared).segments =
      v.desired.toList := by
  have honly' : ∀ n, .placeholder n ∈ (Template.ofText r.declared).segments → n = p.name :=
    fun n hn => honly n ((Template.mem_names_iff _ n).mpr hn)
  have hopen : p.name ∈ m.openNames r := List.mem_map_of_mem hr
  obtain ⟨value?, hvalue, hfill⟩ := Voter.filling_of_isSuitedBy hsuits
  rw [segments_of_memberTemplate? (voter?_eq_some_iff.mp hv).1, filling_openPieces,
    Template.filling_of_only honly' (by rw [if_pos hopen, hvalue])] at hfill
  exact hfill

/-- A value that suits such a member is a part of the text that the member should come to. -/
theorem not_mentioned_of_isSuitedBy (hr : p ∈ m.requirementRefs r)
    (honly : ∀ n ∈ Placeholder.names r.declared, n = p.name) (hv : m.voter? r j = some v)
    (hsuits : v.isSuitedBy p.name value = true)
    (hdesired : Placeholder.mentioned v.desired = false) :
    Placeholder.mentioned value = false := by
  have hmem := (Template.mem_names_iff _ _).mp ((m.mem_refs_iff _ _ p).mp hr).1
  have hpart : value.toList <:+:
      Template.filling (fun _ => some value) (Template.ofText r.declared).segments :=
    Template.infix_filling hmem rfl
  rw [filling_declared_of_isSuitedBy hr honly hv hsuits] at hpart
  exact Placeholder.not_mentioned_of_infix hpart hdesired

/-- **The chosen value makes each member that it suits come to its text**, if the version text of
the member names nothing else. A member that would come to this text anyway has it already. -/
theorem resolvePatched_of_isSuitedBy (hr : p ∈ m.requirementRefs r) (hp : m.isDerived p = false)
    (h : Voter.chooseValue? (m.voters js p) p.name = some value)
    (honly : ∀ n ∈ Placeholder.names r.declared, n = p.name) (hv : m.voter? r j = some v)
    (hsuits : v.isSuitedBy p.name value = true)
    (hdesired : Placeholder.mentioned v.desired = false) :
    m.resolvePatched (m.propertyPatch js) r.origin.scope r.declared = v.desired ∧
      ((m.propertyPatch js).property? p.scope p.name = none →
        m.resolve r.origin.scope r.declared = v.desired) := by
  have hfill := filling_declared_of_isSuitedBy hr honly hv hsuits
  have hvalue := not_mentioned_of_isSuitedBy hr honly hv hsuits hdesired
  obtain ⟨hpatched, hkept⟩ := lookupPatched?_of_chooseValue? hr hp h
  constructor
  · rw [← String.toList_inj, ← hfill]
    exact Interpolation.toList_interpolate_of_only honly hpatched hvalue
  · intro hnone
    rw [← String.toList_inj, ← hfill]
    exact Interpolation.toList_interpolate_of_only honly (hkept hnone) hvalue

/-- A requirement that comes to the version that it should have is not overridden, provided that a
changed property leads to this version if it is a new one. -/
theorem overrideOf?_outcome_of_resolvePatched {patch : Patch} {desired : String} (hj : j.Fits r)
    (hdesired : j.desired? = some desired) (hrefs : m.requirementRefs r ≠ [])
    (hvalue : m.resolvePatched patch r.origin.scope r.declared = desired)
    (hchanged : desired ≠ r.resolved → m.changedRef? patch r ≠ none) :
    overrideOf? (m.outcome patch r j) = none := by
  cases hj with
  | unknown reason => cases hdesired
  | kept reason =>
    obtain rfl := Option.some.inj hdesired
    rw [outcome_keep, if_neg fun hmoved => hmoved.2 hvalue]
    rfl
  | upgraded version hne =>
    obtain rfl := Option.some.inj hdesired
    have hfollows := (m.followsProperties_iff patch r version).mpr ⟨hrefs, hvalue⟩
    show overrideOf? (if m.followsProperties patch r version then _ else _) = none
    rw [if_pos hfollows]
    cases hfound : m.changedRef? patch r with
    | none => exact absurd hfound (hchanged hne)
    | some p => rfl

/-- **A member that the chosen value suits keeps its version text.** -/
theorem overrideOf?_outcome_of_isSuitedBy (hr : p ∈ m.requirementRefs r)
    (hp : m.isDerived p = false) (hj : j.Fits r)
    (hresolved : r.resolved = m.resolve r.origin.scope r.declared)
    (h : Voter.chooseValue? (m.voters js p) p.name = some value)
    (honly : ∀ n ∈ Placeholder.names r.declared, n = p.name) (hv : m.voter? r j = some v)
    (hsuits : v.isSuitedBy p.name value = true)
    (hdesired : Placeholder.mentioned v.desired = false) :
    overrideOf? (m.outcome (m.propertyPatch js) r j) = none := by
  obtain ⟨hvalue, hkept⟩ := resolvePatched_of_isSuitedBy hr hp h honly hv hsuits hdesired
  refine overrideOf?_outcome_of_resolvePatched hj (voter?_eq_some_iff.mp hv).2
    (List.ne_nil_of_mem hr) hvalue fun hne hnone => hne ?_
  -- a search that finds nothing has met the property, which is therefore not changed
  obtain ⟨ps, hps, hunchanged⟩ := exists_isUnchanged_of_changedRef?_eq_none hnone
  rw [hresolved, hkept (hunchanged.silent p (hps p hr))]

/-- **The members of a property choose the first of the proposals that suit the most of them**, and
where the templates hold no other placeholder, and never twice in a row, nothing but the empty value
suits more. **A property that is not written through others gets this value**, unless it has it, and
a member that the value suits keeps its version text if that names nothing else. -/
theorem arbitrate_follows_majority {text : String} (hm : read text = .ok m)
    (hjs : List.Forall₂ Judgement.Fits m.requirements js) :
    (∀ (voters : List Voter) (name : String),
      (Voter.chooseValue? voters name = none ↔
        ∀ v ∈ voters, name ∈ v.template.placeholders → v.template.matches? v.desired = none) ∧
      ∀ value, (Voter.chooseValue? voters name = some value ↔
          Voter.IsMajority voters name value) ∧
        (Voter.chooseValue? voters name = some value →
          (∀ v ∈ voters, v.template.hasAdjacent = false ∧
            ∀ n ∈ v.template.placeholders, n = name) →
          ∀ other, other ≠ "" →
            Voter.support voters name other ≤ Voter.support voters name value)) ∧
    ∀ p : PropertyRef,
      (Voter.chooseValue? (m.voters js p) p.name = none ↔
        ∀ v ∈ m.voters js p, v.template.matches? v.desired = none) ∧
      (m.isDerived p = false → ∀ value,
        ((m.arbitrate js).property? p.scope p.name = some value ↔
          Voter.chooseValue? (m.voters js p) p.name = some value ∧
            m.propertyValue? p ≠ some value) ∧
        (Voter.chooseValue? (m.voters js p) p.name = some value →
          ∀ (i : Nat) (r : Requirement) (j : Judgement) (v : Voter),
            m.requirements[i]? = some r → js[i]? = some j → p ∈ m.requirementRefs r →
            m.voter? r j = some v → v.isSuitedBy p.name value = true →
            (∀ n ∈ Placeholder.names r.declared, n = p.name) →
            Placeholder.mentioned v.desired = false →
            ∀ d ∈ (m.arbitrate js).dependencies,
              ¬ (d.package = r.package ∧ d.origin = r.origin))) := by
  refine ⟨fun voters name => ⟨Voter.chooseValue?_eq_none_iff, fun value =>
    ⟨Voter.chooseValue?_eq_some_iff, fun h honly other hne => ?_⟩⟩, fun p =>
    ⟨chooseValue?_voters_eq_none_iff, fun hp value =>
      ⟨property?_propertyPatch_iff hp, fun h i r j v hr hj href hv hsuits honly hdesired => ?_⟩⟩⟩
  · exact (Voter.chooseValue?_eq_some_iff.mp h).support_le honly hne
  · have hmem : (r, j) ∈ m.requirements.zip js :=
      List.mem_of_getElem? (List.getElem?_zip_eq_some.mpr ⟨hr, hj⟩)
    have hnone := overrideOf?_outcome_of_isSuitedBy href hp ((List.forall₂_iff_zip.mp hjs).2 hmem)
      (resolved_of_mem hm (List.mem_of_getElem? hr)) h honly hv hsuits hdesired
    intro d hd hkeyed
    rw [dependencies_eq] at hd
    have hown := (mem_overrides_iff
      (f := fun r j => overrideOf? (m.outcome (m.propertyPatch js) r j))
      (nodup_keys_of_read hm) (fun _ _ _ h => key_of_overrideOf? h) hr hj d).mp ⟨hd, hkeyed⟩
    rw [hnone] at hown
    cases hown

/-- Two members propose different values, each of which suits one of them: the property gets the
value of the first member, which keeps its version text. -/
theorem arbitrate_follows_first :
    ∃ m r, read (String.join (twoDependencies "1" "$\x7bv\x7d")) = .ok m ∧
      m.requirements[0]? = some r ∧
      (m.arbitrate (SuggestOptions.free.judgements m SuggestOptions.newerFirst)).property? .root
        "v" = some "2.0" ∧
      ∀ d ∈ (m.arbitrate (SuggestOptions.free.judgements m
          SuggestOptions.newerFirst)).dependencies,
        ¬ (d.package = r.package ∧ d.origin = r.origin) := by
  obtain ⟨m, hm, h⟩ := exists_of_any (twoDependencies "1" "$\x7bv\x7d") (fun m =>
    m.requirements[0]?.any fun r =>
      (m.voter? r (SuggestOptions.free.judge r (SuggestOptions.newerFirst r.package))).any fun v =>
        m.isDerived ⟨.root, "v"⟩ = false ∧
          Voter.chooseValue? (m.voters (SuggestOptions.free.judgements m
            SuggestOptions.newerFirst) ⟨.root, "v"⟩) "v" = some "2.0" ∧
          m.propertyValue? ⟨.root, "v"⟩ ≠ some "2.0" ∧ ⟨.root, "v"⟩ ∈ m.requirementRefs r ∧
          v.isSuitedBy "v" "2.0" = true ∧ (∀ n ∈ Placeholder.names r.declared, n = "v") ∧
          Placeholder.mentioned v.desired = false)
    (by decide +kernel)
  obtain ⟨r, hr, h⟩ := (Option.any_eq_true _ _).mp h
  obtain ⟨v, hv, h⟩ := (Option.any_eq_true _ _).mp h
  obtain ⟨hliteral, hchosen, hcurrent, href, hsuits, honly, hdesired⟩ := of_decide_eq_true h
  have hj : (SuggestOptions.free.judgements m SuggestOptions.newerFirst)[0]? =
      some (SuggestOptions.free.judge r (SuggestOptions.newerFirst r.package)) := by
    rw [SuggestOptions.judgements, List.getElem?_map, hr, Option.map_some]
  obtain ⟨-, hproperty⟩ := arbitrate_follows_majority hm
    (SuggestOptions.free.fits_judgements m SuggestOptions.newerFirst)
  obtain ⟨hset, hkept⟩ := (hproperty ⟨.root, "v"⟩).2 hliteral "2.0"
  exact ⟨m, r, hm, hr, hset.mpr ⟨hchosen, hcurrent⟩,
    hkept hchosen 0 r _ v hr hj href hv hsuits honly hdesired⟩

end Manifest

end MavenUpgrade

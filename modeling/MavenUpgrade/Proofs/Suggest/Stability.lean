import Mathlib
import MavenUpgrade.Proofs.Suggest.Rejudging
import MavenUpgrade.Proofs.Suggest.Targets

/-!
# Suggesting again

A document is flat if its properties are declared once and with literal values, and each version
text refers to at most one of them. When a suggestion for a flat document has been applied, each
requirement has the version that it should have, and nothing more is suggested
(`SuggestOptions.suggest_settles`). A requirement whose version only seems to be unresolved is the
exception: it is passed over as long as a placeholder stands in its version, and may be upgraded
once the property behind it has another value (`SuggestOptions.suggest_goes_on`).
-/

namespace MavenUpgrade

/-! ## Flat documents -/

namespace Pom

/-- The properties of a document are declared once and with literal values, and each version text
refers to no more than one name, which is that of a declared property. -/
structure Flat (pom : Pom) : Prop where
  once : (pom.properties.map fun p => (p.scope, p.name)).Nodup
  literal : ∀ p ∈ pom.properties, Placeholder.mentioned p.value = false
  single : ∀ r ∈ (Manifest.ofPom pom).requirements, (Placeholder.names r.declared).length ≤ 1
  located : ∀ r ∈ (Manifest.ofPom pom).requirements, ∀ name ∈ Placeholder.names r.declared,
    ((Manifest.ofPom pom).properties.locate? r.origin.scope name).isSome = true

instance (pom : Pom) : Decidable pom.Flat :=
  decidable_of_iff
    ((pom.properties.map fun p => (p.scope, p.name)).Nodup ∧
      (∀ p ∈ pom.properties, Placeholder.mentioned p.value = false) ∧
      (∀ r ∈ (Manifest.ofPom pom).requirements, (Placeholder.names r.declared).length ≤ 1) ∧
      ∀ r ∈ (Manifest.ofPom pom).requirements, ∀ name ∈ Placeholder.names r.declared,
        ((Manifest.ofPom pom).properties.locate? r.origin.scope name).isSome = true)
    ⟨fun ⟨h₁, h₂, h₃, h₄⟩ => ⟨h₁, h₂, h₃, h₄⟩, fun ⟨h₁, h₂, h₃, h₄⟩ => ⟨h₁, h₂, h₃, h₄⟩⟩

variable {pom : Pom}

/-- No property of a flat document is declared twice. -/
theorem Flat.length_declarationsOf (h : pom.Flat) (scope : Scope) (name : String) :
    (pom.declarationsOf scope name).length ≤ 1 := by
  have hsub : (pom.declarationsOf scope name).Sublist pom.properties := List.filter_sublist
  have hnodup := h.once.sublist (hsub.map fun p => (p.scope, p.name))
  have hkey : ∀ p ∈ pom.declarationsOf scope name, (p.scope, p.name) = (scope, name) := by
    intro p hp
    obtain ⟨rfl, rfl⟩ := of_decide_eq_true (List.mem_filter.mp hp).2
    rfl
  cases hd : pom.declarationsOf scope name with
  | nil => exact Nat.zero_le _
  | cons p rest =>
    cases rest with
    | nil => exact le_refl _
    | cons q rest =>
      rw [hd] at hnodup hkey
      have hne := (List.nodup_cons.mp hnodup).1
      refine absurd (List.mem_cons.mpr (Or.inl ?_)) hne
      exact (hkey p List.mem_cons_self).trans (hkey q (.tail _ (.head _))).symm

end Pom

namespace Manifest

variable {pom : Pom} {m : Manifest}

/-- Where all values are literal, a requirement that refers to no more than one name reads it
alone. -/
theorem readsAlone_of_literal
    (hliteral : ∀ scope name value, m.properties.get? scope name = some value →
      Placeholder.mentioned value = false)
    {r : Requirement} (hsingle : (Placeholder.names r.declared).length ≤ 1) :
    m.ReadsAlone r := by
  intro p hp
  have hlength : (m.requirementRefs r).length ≤ 1 :=
    (List.length_filterMap_le _ _).trans hsingle
  have hrefs : m.requirementRefs r = [p] := by
    obtain ⟨q, hq⟩ := List.length_eq_one_iff.mp
      (Nat.le_antisymm hlength (List.length_pos_of_mem hp))
    rw [hq] at hp ⊢
    rw [List.mem_singleton.mp hp]
  refine ⟨hrefs, ?_⟩
  obtain ⟨hname, hlocate⟩ := (Environment.mem_refs_iff _ _ _ p).mp hp
  obtain ⟨value, hvalue⟩ := Option.isSome_iff_exists.mp (Environment.isSome_get?_of_locate? hlocate)
  have hlit := hliteral _ _ _ hvalue
  have hlookup : m.lookup? r.origin.scope p.name = some value := by
    rw [Environment.lookup?, hlocate, Option.bind_some, hvalue, Option.some_or]
  have hisName := Template.isName_of_mem_segmentsOf ((Template.mem_names_iff _ _).mp hname)
  rw [Environment.propertyValue?, hvalue, Option.map_some, Environment.resolve,
    Interpolation.interpolate_of_not_mentioned _ hlit, Environment.resolve,
    Interpolation.interpolate_placeholder _ hisName, hlookup, Option.map_some,
    Interpolation.expand_of_not_mentioned _ _ _ hlit, Option.getD_some]

/-- The values of a flat document are literal. -/
theorem not_mentioned_of_flat (h : pom.Flat) {scope : Scope} {name value : String}
    (hv : (ofPom pom).properties.get? scope name = some value) :
    Placeholder.mentioned value = false := by
  have hget : (environmentOf pom).properties.get? scope name = some value := hv
  rw [get?_environmentOf] at hget
  obtain ⟨p, hp, rfl⟩ := Option.map_eq_some_iff.mp hget
  exact h.literal p (List.mem_of_mem_filter (List.mem_of_getLast? hp))

/-- A requirement that is not moved comes to the version that it has. -/
theorem resolvePatched_of_not_isMoved {patch : Patch} {r : Requirement}
    (hresolved : r.resolved = m.resolve r.origin.scope r.declared)
    (hlocated : ∀ name ∈ Placeholder.names r.declared,
      (m.properties.locate? r.origin.scope name).isSome = true)
    (h : ¬ m.IsMoved patch r) :
    m.resolvePatched patch r.origin.scope r.declared = r.resolved := by
  by_cases hrefs : m.requirementRefs r = []
  · -- it names nothing, so that nothing can move it
    have hnames (name : String) : name ∉ Placeholder.names r.declared := by
      intro hn
      have hnone := List.filterMap_eq_nil_iff.mp hrefs name hn
      have hsome := hlocated name hn
      rw [Option.map_eq_none_iff.mp hnone] at hsome
      cases hsome
    rw [hresolved]
    refine Interpolation.interpolate_congr fun name hreach => ?_
    cases hreach with
    | named hn => exact absurd hn (hnames _)
    | through hn _ _ => exact absurd hn (hnames _)
  · by_contra hne
    exact h ⟨hrefs, hne⟩

/-! ## Applied patches -/

variable {text out : String} {patch : Patch} {m' : Manifest}

/-- The properties of a patched document: the same ones are declared, and one that is declared once
has its new value, if there is one. -/
theorem get?_of_applyPatch (hread : Pom.read text = .ok pom) (hadmits : pom.Admits patch)
    (happly : applyPatch text patch = .ok out) (hm' : read out = .ok m') (scope : Scope)
    (name : String) :
    (m'.properties.get? scope name).isSome = ((ofPom pom).properties.get? scope name).isSome ∧
      ((pom.declarationsOf scope name).length ≤ 1 → m'.properties.get? scope name =
        (patch.property? scope name).or ((ofPom pom).properties.get? scope name)) := by
  obtain ⟨pom', hread', h⟩ := Pom.exists_follows hread hadmits.writable hadmits.plain happly
  obtain ⟨pom'', hread'', rfl⟩ := exists_of_read hm'
  obtain rfl := Except.ok.inj (hread'.symm.trans hread'')
  have hget : (ofPom pom').properties.get? scope name = pom.settled? patch scope name :=
    get?_of_follows h scope name
  refine ⟨?_, fun honce => ?_⟩
  · have hget' : (ofPom pom).properties.get? scope name = _ := get?_environmentOf pom scope name
    rw [hget, hget', Pom.settled?, Option.isSome_map, Option.isSome_map]
  · rw [hget, settled?_of_once h fun _ => honce]
    rfl

/-- In a patched document a scope sees the same properties. -/
theorem locate?_of_applyPatch (hread : Pom.read text = .ok pom) (hadmits : pom.Admits patch)
    (happly : applyPatch text patch = .ok out) (hm' : read out = .ok m') (scope : Scope)
    (name : String) :
    m'.properties.locate? scope name = (ofPom pom).properties.locate? scope name := by
  have hsome (s : Scope) := (get?_of_applyPatch hread hadmits happly hm' s name).1
  rw [PropertySet.locate?, PropertySet.locate?, hsome, hsome]

/-- A text that refers to declared properties only has the value that was foreseen, if no property
is declared twice and all values are literal. -/
theorem resolve_of_applyPatch (hread : Pom.read text = .ok pom) (hadmits : pom.Admits patch)
    (happly : applyPatch text patch = .ok out) (hm' : read out = .ok m') (hflat : pom.Flat)
    (hliteral : ∀ scope name value, patch.property? scope name = some value →
      Placeholder.mentioned value = false)
    {scope : Scope} {declared : String}
    (hlocated : ∀ name ∈ Placeholder.names declared,
      ((ofPom pom).properties.locate? scope name).isSome = true) :
    m'.resolve scope declared = (ofPom pom).resolvePatched patch scope declared := by
  -- the value that a name of the text has, before and after
  have hvalue (name : String) (hn : name ∈ Placeholder.names declared) :
      ∃ value, (ofPom pom).lookupPatched? patch scope name = some value ∧
        m'.lookup? scope name = some value ∧ Placeholder.mentioned value = false := by
    obtain ⟨found, hfound⟩ := Option.isSome_iff_exists.mp (hlocated name hn)
    obtain ⟨current, hcurrent⟩ :=
      Option.isSome_iff_exists.mp (Environment.isSome_get?_of_locate? hfound)
    have hget := (get?_of_applyPatch hread hadmits happly hm' found name).2
      (hflat.length_declarationsOf found name)
    have hafter : m'.lookup? scope name = (patch.property? found name).or (some current) := by
      rw [Environment.lookup?, locate?_of_applyPatch hread hadmits happly hm', hfound,
        Option.bind_some, hget, hcurrent, Option.or_assoc, Option.some_or]
    have hbefore : (ofPom pom).lookupPatched? patch scope name =
        (patch.property? found name).or (some current) := by
      rw [Environment.lookupPatched?, Environment.lookup?, hfound, Option.bind_some,
        Option.bind_some, hcurrent, Option.some_or]
    cases hnew : patch.property? found name with
    | none =>
      rw [hnew] at hafter hbefore
      exact ⟨current, hbefore, hafter, not_mentioned_of_flat hflat hcurrent⟩
    | some value =>
      rw [hnew] at hafter hbefore
      exact ⟨value, hbefore, hafter, hliteral _ _ _ hnew⟩
  refine (Interpolation.interpolate_congr fun name hreach => ?_).symm
  cases hreach with
  | named hn =>
    obtain ⟨value, hbefore, hafter, -⟩ := hvalue name hn
    rw [hbefore, hafter]
  | through hn hv hi =>
    -- a literal value leads no further
    obtain ⟨value, hbefore, -, hlit⟩ := hvalue _ hn
    obtain rfl := Option.some.inj (hv.symm.trans hbefore)
    exact absurd hi (Interpolation.not_reaches_of_not_mentioned _ hlit)

/-- If the new values are literal, then so are all values of a flat document that is patched. -/
theorem not_mentioned_of_applyPatch (hread : Pom.read text = .ok pom) (hadmits : pom.Admits patch)
    (happly : applyPatch text patch = .ok out) (hm' : read out = .ok m') (hflat : pom.Flat)
    (hliteral : ∀ scope name value, patch.property? scope name = some value →
      Placeholder.mentioned value = false)
    {scope : Scope} {name value : String} (h : m'.properties.get? scope name = some value) :
    Placeholder.mentioned value = false := by
  rw [(get?_of_applyPatch hread hadmits happly hm' scope name).2
    (hflat.length_declarationsOf scope name)] at h
  rcases Option.or_eq_some_iff.mp h with h | ⟨-, h⟩
  · exact hliteral scope name value h
  · exact not_mentioned_of_flat hflat h

end Manifest

namespace Requirement

variable (r : Requirement) {patch : Patch} (env : Environment)

/-- Without an override a requirement has the value of its own text. -/
theorem resolved_follow_of_none (hd : patch.dependency? r.package r.origin = none) :
    (r.follow patch env).resolved = env.resolve r.origin.scope r.declared := by
  rw [follow, hd]
  rfl

/-- With an override a requirement has the value of the new text. -/
theorem resolved_follow_of_some {d : DependencyPatch}
    (hd : patch.dependency? r.package r.origin = some d) :
    (r.follow patch env).resolved = env.resolve r.origin.scope d.newRequire := by
  rw [follow, hd]
  rfl

/-- The text of a requirement is the one that was declared, or a new one. -/
theorem length_names_follow (hr : (Placeholder.names r.declared).length ≤ 1)
    (hnew : ∀ d ∈ patch.dependencies, (Placeholder.names d.newRequire).length ≤ 1) :
    (Placeholder.names (r.follow patch env).declared).length ≤ 1 := by
  rw [follow]
  cases hd : patch.dependency? r.package r.origin with
  | none => exact hr
  | some d => exact hnew d (List.mem_of_find?_eq_some hd)

end Requirement

/-! ## New values -/

namespace SuggestOptions

variable {o : SuggestOptions} {m : Manifest} {lookup? : Package → Option Lookup}

/-- A new value of a property is a part of a new version, and so opens no placeholder. -/
theorem not_mentioned_of_newValue?
    (hresolved : ∀ r ∈ m.requirements, r.resolved = m.resolve r.origin.scope r.declared)
    (halone : ∀ r ∈ m.requirements, m.ReadsAlone r)
    (hfound : ∀ version, IsFound lookup? version → Placeholder.mentioned version = false)
    {p : PropertyRef} {value : String}
    (h : m.newValue? (o.judgements m lookup?) p = some value) :
    Placeholder.mentioned value = false := by
  obtain ⟨current, hcurrent, hchoose, hne⟩ := (m.newValue?_eq_some_iff _ p value).mp h
  obtain ⟨⟨t, desired⟩, hvoter, hpropose⟩ := Voter.exists_of_chooseValue? hchoose
  obtain ⟨r, hr, hp, ht, hdesired⟩ := exists_of_mem_voters hvoter
  have hj := o.fits_judge r (lookup? r.package)
  generalize hjudge : o.judge r (lookup? r.package) = j at hj hdesired
  cases hj with
  | unknown reason => cases hdesired
  | kept reason =>
    -- a member that is kept proposes the value that the property has
    obtain rfl := Option.some.inj hdesired
    have hdetermines :=
      Manifest.determinesProperties_of_readsAlone (hresolved r hr) (halone r hr)
    have hsame := Manifest.proposal_of_determinesProperties hp hdetermines ht hpropose
    exact absurd (Option.some.inj (hsame.symm.trans hcurrent)) hne
  | upgraded version _ =>
    obtain rfl : version = desired := Option.some.inj hdesired
    have hversion := o.not_mentioned_of_upgrade lookup? hfound hjudge
    obtain ⟨found, hmatch, hl⟩ := Option.bind_eq_some_iff.mp hpropose
    have hmem : .placeholder p.name ∈ t.segments := by
      rw [Manifest.segments_of_memberTemplate? ht, Manifest.placeholder_mem_openPieces_iff]
      exact List.mem_map_of_mem hp
    have hpart := Template.infix_of_matches? hmatch hmem hl
    exact Placeholder.not_mentioned_of_infix hpart hversion

/-! ## Skipping again -/

/-- A requirement that is not resolved is not upgraded. -/
theorem skip?_of_isUnresolved {r : Requirement} {l? : Option Lookup} (hu : r.isUnresolved = true) :
    (o.judge r l?).skip? ≠ none := by
  have hearly : ∃ reason, o.skipsEarly? r = some reason := by
    rw [skipsEarly?]
    split_ifs
    · exact ⟨_, rfl⟩
    · exact ⟨_, rfl⟩
    · exact ⟨_, rfl⟩
  obtain ⟨reason, hearly⟩ := hearly
  rw [skip?_of_skipsEarly? hearly]
  exact Option.some_ne_none _

/-- A requirement that is kept although it is not resolved is left alone whatever its version. -/
theorem skip?_of_keep_unresolved {r r' : Requirement} {l? : Option Lookup} {reason : SkipReason}
    (hu : r.isUnresolved = true) (h : o.judge r l? = .keep r reason)
    (hp : r'.package = r.package) (ht : r'.scopeTags = r.scopeTags) :
    (o.judge r' l?).skip? ≠ none := by
  have hname : r'.name = r.name := congrArg Package.name hp
  have htags : r'.isNonProduction = r.isNonProduction := by
    rw [Requirement.isNonProduction, ht, Requirement.isNonProduction]
  have hearly : ∃ reason, o.skipsEarly? r' = some reason := by
    rw [skipsEarly?, hname, htags]
    by_cases hx : o.isExcluded r.name = true
    · exact ⟨_, if_pos hx⟩
    · by_cases hn : (o.ignoreNonProduction && r.isNonProduction) = true
      · exact ⟨_, by rw [if_neg hx, if_pos hn]⟩
      · -- its version would be unknown
        have hunknown : o.skipsEarly? r =
            some (.unresolvedProperty ((Placeholder.names r.resolved).headD "")) := by
          rw [skipsEarly?, if_neg hx, if_neg hn, if_pos hu]
        unfold judge at h
        rw [hunknown] at h
        cases h
  obtain ⟨reason, hearly⟩ := hearly
  rw [skip?_of_skipsEarly? hearly]
  exact Option.some_ne_none _

/-! ## The second suggestion -/

/-- The versions that are found can be written, open no placeholder and do not look like ranges. -/
def FindsLiterals (lookup? : Package → Option Lookup) : Prop :=
  ∀ version, IsFound lookup? version → IsWritable version ∧
    Placeholder.mentioned version = false ∧ Specifier.beginsRange version = false

section Second

variable {m' : Manifest} {patch : Patch} {r r' : Requirement}

/-- A requirement that is kept is kept again, if it has its version still or is not resolved. -/
theorem skip?_of_keep {l? : Option Lookup} {reason : SkipReason}
    (hjudge : o.judge r l? = .keep r reason) (hp : r'.package = r.package)
    (ht : r'.scopeTags = r.scopeTags)
    (hsame : r.isUnresolved = false → r'.resolved = r.resolved) :
    (o.judge r' l?).skip? ≠ none := by
  by_cases hu : r.isUnresolved = true
  · exact skip?_of_keep_unresolved hu hjudge hp ht
  · rw [judge_congr hp ht (hsame (Bool.eq_false_iff.mpr hu)), hjudge]
    exact Option.some_ne_none _

/-- **What a requirement becomes is not upgraded**, whether its text was replaced, a property gave
it a new value, or nothing changed. -/
theorem skip?_follow (hstable : o.stableOnly = false)
    (hfound : FindsLiterals lookup?)
    (hresolved : r.resolved = m.resolve r.origin.scope r.declared)
    (hlocated : ∀ name ∈ Placeholder.names r.declared,
      (m.properties.locate? r.origin.scope name).isSome = true)
    (hstays : r.isUnresolved = true →
      Placeholder.mentioned (m.resolvePatched patch r.origin.scope r.declared) = true)
    (hd : patch.dependency? r.package r.origin =
      Manifest.overrideOf? (m.outcome patch r (o.judge r (lookup? r.package))))
    (hresolve : m'.resolve r.origin.scope r.declared =
      m.resolvePatched patch r.origin.scope r.declared) :
    (o.judge (r.follow patch m'.toEnvironment) (lookup? r.package)).skip? ≠ none := by
  have hnone (h : patch.dependency? r.package r.origin = none) :=
    r.resolved_follow_of_none m'.toEnvironment h
  have hsome {d : DependencyPatch} (h : patch.dependency? r.package r.origin = some d) :=
    r.resolved_follow_of_some m'.toEnvironment h
  have hp : (r.follow patch m'.toEnvironment).package = r.package := rfl
  have ht : (r.follow patch m'.toEnvironment).scopeTags = r.scopeTags := rfl
  generalize r.follow patch m'.toEnvironment = r' at hnone hsome hp ht ⊢
  have hj := o.fits_judge r (lookup? r.package)
  generalize hjudge : o.judge r (lookup? r.package) = j at hj hd
  cases hj with
  | unknown reason =>
    apply skip?_of_isUnresolved
    rw [Requirement.isUnresolved, hnone hd, hresolve]
    exact hstays (unresolved_of_judge hjudge).1
  | kept reason =>
    refine skip?_of_keep hjudge hp ht fun hu => ?_
    rw [Manifest.outcome_keep] at hd
    split at hd
    · -- it is pinned to the version that it has
      rw [hsome hd]
      exact Interpolation.interpolate_of_not_mentioned _ hu
    · next hmoved =>
      rw [hnone hd, hresolve]
      exact Manifest.resolvePatched_of_not_isMoved hresolved hlocated hmoved
  | upgraded version hne =>
    have hversion : Placeholder.mentioned version = false :=
      o.not_mentioned_of_upgrade lookup? (fun v hv => (hfound v hv).2.1) hjudge
    -- the new version is its text, or the value that a property gives it
    have hvalue : r'.resolved = version := by
      rcases m.outcome_upgrade patch r version with ho | ⟨p, -, hforeseen, ho⟩
      · rw [ho] at hd
        rw [hsome hd]
        exact Interpolation.interpolate_of_not_mentioned _ hversion
      · rw [ho] at hd
        rw [hnone hd, hresolve, hforeseen]
    have hlookup : ∀ versions, lookup? r.package = some (.found versions) → ∀ v ∈ versions,
        IsWritable v ∧ Specifier.beginsRange v = false := by
      intro versions hl v hv
      obtain ⟨hw, -, hb⟩ := hfound v ⟨r.package, versions, hl, hv⟩
      exact ⟨hw, hb⟩
    rw [judge_of_upgrade hstable hlookup hjudge hp ht hvalue hversion]
    exact Option.some_ne_none _

variable {text out : String} {pom : Pom}

/-- The new values of properties that are suggested for a flat document open no placeholder. -/
theorem not_mentioned_of_property? (hflat : pom.Flat)
    (hfound : ∀ version, IsFound lookup? version → Placeholder.mentioned version = false)
    {scope : Scope} {name value : String}
    (h : (o.suggest (.ofPom pom) lookup?).patch.property? scope name = some value) :
    Placeholder.mentioned value = false := by
  obtain ⟨-, hnew⟩ := Manifest.newValue?_of_property? h
  refine not_mentioned_of_newValue? (fun r hr => Manifest.resolved_of_mem_ofPom hr)
    (fun r hr => ?_) hfound hnew
  exact Manifest.readsAlone_of_literal
    (fun _ _ _ hv => Manifest.not_mentioned_of_flat hflat hv) (hflat.single r hr)

/-- **A suggestion for a flat document that has been applied leaves nothing to suggest**, provided
that no requirement becomes resolved by it, and that no new version text refers to two names. -/
theorem suggest_settles (o : SuggestOptions) (lookup? : Package → Option Lookup)
    (hread : Pom.read text = .ok pom) (hstable : o.stableOnly = false)
    (hfound : FindsLiterals lookup?)
    (hflat : pom.Flat) (hadmits : pom.Admits (o.suggest (.ofPom pom) lookup?).patch)
    (hstays : ∀ r ∈ (Manifest.ofPom pom).requirements, r.isUnresolved = true →
      Placeholder.mentioned ((Manifest.ofPom pom).resolvePatched
        (o.suggest (.ofPom pom) lookup?).patch r.origin.scope r.declared) = true)
    (hsingle : ∀ d ∈ (o.suggest (.ofPom pom) lookup?).patch.dependencies,
      (Placeholder.names d.newRequire).length ≤ 1)
    (happly : applyPatch text (o.suggest (.ofPom pom) lookup?).patch = .ok out) :
    ∃ m', Manifest.read out = .ok m' ∧ (o.suggest m' lookup?).patch.isEmpty = true := by
  obtain ⟨m', hm', hf⟩ := Manifest.exists_follows hread hadmits happly
  have hnew (scope : Scope) (name value : String)
      (h : (o.suggest (.ofPom pom) lookup?).patch.property? scope name = some value) :
      Placeholder.mentioned value = false :=
    not_mentioned_of_property? hflat (fun v hv => (hfound v hv).2.1) h
  have hskip : ∀ r' ∈ m'.requirements, (o.judge r' (lookup? r'.package)).skip? ≠ none := by
    intro r' hr'
    rw [hf.requirements] at hr'
    obtain ⟨r, hr, rfl⟩ := List.mem_map.mp hr'
    exact skip?_follow hstable hfound (Manifest.resolved_of_mem_ofPom hr) (hflat.located r hr)
      (hstays r hr) (o.dependency?_suggest lookup? pom hr)
      (Manifest.resolve_of_applyPatch hread hadmits happly hm' hflat hnew (hflat.located r hr))
  refine ⟨m', hm', isEmpty_of_determinesProperties
    (fun r' hr' => Manifest.resolved_of_mem hm' hr') hskip fun r' hr' => ?_⟩
  refine Manifest.determinesProperties_of_readsAlone (Manifest.resolved_of_mem hm' hr')
    (Manifest.readsAlone_of_literal (fun _ _ _ hv =>
      Manifest.not_mentioned_of_applyPatch hread hadmits happly hm' hflat hnew hv) ?_)
  rw [hf.requirements] at hr'
  obtain ⟨r, hr, rfl⟩ := List.mem_map.mp hr'
  exact r.length_names_follow _ (hflat.single r hr) hsingle

/-- A property that is set to the latest version leaves nothing to suggest. -/
theorem suggest_settles_single_property :
    ∃ pom out m', Pom.read (String.join (oneDependency "<v>1.0</v>" "$\x7bv\x7d")) = .ok pom ∧
      applyPatch (String.join (oneDependency "<v>1.0</v>" "$\x7bv\x7d"))
        (free.suggest (.ofPom pom) foundTwo).patch = .ok out ∧
      Manifest.read out = .ok m' ∧
      (free.suggest (.ofPom pom) foundTwo).patch.isEmpty = false ∧
      (free.suggest m' foundTwo).patch.isEmpty = true := by
  obtain ⟨pom, hread, h⟩ := Pom.exists_of_any (oneDependency "<v>1.0</v>" "$\x7bv\x7d")
    (fun pom => pom.OnlySets (free.suggest (.ofPom pom) foundTwo).patch .root "v" "2.0" ∧
      pom.Flat ∧ (∀ r ∈ (Manifest.ofPom pom).requirements, r.isUnresolved = false) ∧
      (free.suggest (.ofPom pom) foundTwo).patch.isEmpty = false)
    (by decide +kernel)
  obtain ⟨hsets, hflat, hresolved, hne⟩ := of_decide_eq_true h
  obtain ⟨out, happly⟩ := hsets.exists_applyPatch hread
  obtain ⟨m', hm', hempty⟩ := suggest_settles free foundTwo hread rfl
    (by
      rintro version ⟨package, versions, hl, hm⟩
      obtain rfl : ["2.0"] = versions := Lookup.found.inj (Option.some.inj hl)
      obtain rfl := List.mem_singleton.mp hm
      decide)
    hflat hsets.admits
    (fun r hr hu => by
      rw [hresolved r hr] at hu
      cases hu)
    (fun d hd => by
      rw [hsets.dependencies_eq_nil] at hd
      cases hd)
    happly
  exact ⟨pom, out, m', hread, happly, hm', hne, hempty⟩

/-! ## A version that becomes known -/

/-- A patch with an upgrade behind it is not empty. -/
theorem isEmpty_of_upgrade {version : String}
    (hresolved : r.resolved = m.resolve r.origin.scope r.declared) (hr : r ∈ m.requirements)
    (h : o.judge r (lookup? r.package) = .upgrade version) :
    (o.suggest m lookup?).patch.isEmpty = false := by
  rw [Bool.eq_false_iff, ne_eq, Patch.isEmpty_iff]
  rintro ⟨hnone, hsilent⟩
  have hfits := o.fits_judge r (lookup? r.package)
  rw [dependencies_suggest, List.filterMap_eq_nil_iff] at hnone
  have hover := hnone r hr
  rw [h] at hfits hover
  generalize ho : m.outcome (o.suggest m lookup?).patch r (.upgrade version) = outcome at hover
  cases Manifest.outcomeOf_of_eq hfits ho with
  | direct hne => cases hover
  | carried hne hp hvalue =>
    -- without a new value its text comes to the version that it has
    rw [Environment.resolvePatched_of_silent _ hsilent] at hvalue
    exact hne (hvalue.symm.trans hresolved.symm)

/-- A document in pieces: the value of a property begins with a brace, and the text of the second
dependency has a dollar sign in front of it. -/
def behindDollar : List String :=
  ["<project><groupId>g</groupId>", "<artifactId>a</artifactId>", "<version>1</version>",
    "<properties><v>\x7bx</v></properties>", "<dependencies><dependency>",
    "<groupId>g</groupId>", "<artifactId>b</artifactId>", "<version>$\x7bv\x7d</version>",
    "</dependency><dependency>", "<groupId>g</groupId>", "<artifactId>c</artifactId>",
    "<version>$$\x7bv\x7d</version>", "</dependency></dependencies></project>"]

/-- The first of the two dependencies has one version, and the second a later one. -/
def foundTwoAndThree (package : Package) : Option Lookup :=
  some (.found (if package.name = "g:b" then ["2.0"] else ["3.0"]))

/-- The version of the second dependency seems to be unresolved at first; with the new value of the
property it is not, and the dependency is upgraded. -/
theorem suggest_goes_on :
    ∃ pom out m', Pom.read (String.join behindDollar) = .ok pom ∧ pom.Flat ∧
      FindsLiterals foundTwoAndThree ∧
      applyPatch (String.join behindDollar)
        (free.suggest (.ofPom pom) foundTwoAndThree).patch = .ok out ∧
      Manifest.read out = .ok m' ∧
      (free.suggest m' foundTwoAndThree).patch.isEmpty = false := by
  obtain ⟨pom, hread, h⟩ := Pom.exists_of_any behindDollar
    (fun pom => (Manifest.ofPom pom).requirements[1]?.any fun r =>
      pom.OnlySets (free.suggest (.ofPom pom) foundTwoAndThree).patch .root "v" "2.0" ∧
        pom.Flat ∧
        (Manifest.ofPom pom).resolvePatched (free.suggest (.ofPom pom) foundTwoAndThree).patch
          r.origin.scope r.declared = "$2.0" ∧
        free.judge { r with resolved := "$2.0" } (foundTwoAndThree r.package) = .upgrade "3.0")
    (by decide +kernel)
  obtain ⟨r, hr, h⟩ := (Option.any_eq_true _ _).mp h
  obtain ⟨hsets, hflat, hvalue, hjudge⟩ := of_decide_eq_true h
  obtain ⟨out, happly⟩ := hsets.exists_applyPatch hread
  obtain ⟨m', hm', hf⟩ := Manifest.exists_follows hread hsets.admits happly
  have hfound : FindsLiterals foundTwoAndThree := by
    rintro version ⟨package, versions, hl, hm⟩
    obtain rfl := Lookup.found.inj (Option.some.inj hl)
    split at hm
    · obtain rfl := List.mem_singleton.mp hm
      decide
    · obtain rfl := List.mem_singleton.mp hm
      decide
  have hmem : r.follow (free.suggest (.ofPom pom) foundTwoAndThree).patch m'.toEnvironment ∈
      m'.requirements := by
    rw [hf.requirements]
    exact List.mem_map_of_mem (List.mem_of_getElem? hr)
  have hresolve := Manifest.resolve_of_applyPatch hread hsets.admits happly hm' hflat
    (fun _ _ _ hv => not_mentioned_of_property? hflat (fun v hv => (hfound v hv).2.1) hv)
    (hflat.located r (List.mem_of_getElem? hr))
  have hsame := ((r.resolved_follow_of_none m'.toEnvironment
    (hsets.dependency?_eq_none _ _)).trans hresolve).trans hvalue
  have hupgrade : free.judge
      (r.follow (free.suggest (.ofPom pom) foundTwoAndThree).patch m'.toEnvironment)
      (foundTwoAndThree r.package) = .upgrade "3.0" := by
    rw [← hjudge]
    exact judge_congr rfl rfl hsame
  exact ⟨pom, out, m', hread, hflat, hfound, happly, hm',
    isEmpty_of_upgrade (Manifest.resolved_of_mem hm' hmem) hmem hupgrade⟩

end Second

end SuggestOptions

end MavenUpgrade

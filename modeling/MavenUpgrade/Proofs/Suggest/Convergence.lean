import Mathlib
import MavenUpgrade.Proofs.Manifest.Environment
import MavenUpgrade.Proofs.Manifest.Reading
import MavenUpgrade.Proofs.Suggest.Member
import MavenUpgrade.Proofs.Suggest.Outcome
import MavenUpgrade.Proofs.Suggest.Voting
import MavenUpgrade.Proofs.Template.Matching

/-!
# Suggestions without an upgrade

Where no requirement is upgraded, the patch is empty exactly when the members of each property
choose the value that it has. They may choose another one: a version text with several
placeholders can be split in more ways than one, and matching prefers the shortest value for the
first. A member that refers to a single property, and sees its value as the property itself does,
leaves no choice.
-/

namespace MavenUpgrade

/-! ## Votes -/

namespace Manifest

/-- The members of every property choose the value that it has, if they choose one. -/
def KeepsProperties (m : Manifest) (js : Judgements) : Prop :=
  ∀ p ∈ m.usedProperties, ∀ value,
    Voter.chooseValue? (m.voters js p) p.name = some value → m.propertyValue? p = some value

/-- A used property has a value. -/
theorem isSome_propertyValue?_of_mem_usedProperties {m : Manifest} {p : PropertyRef}
    (h : p ∈ m.usedProperties) : (m.propertyValue? p).isSome = true := by
  rw [usedProperties, mem_distinct] at h
  obtain ⟨r, -, hr⟩ := List.mem_flatMap.mp h
  exact Environment.isSome_propertyValue?_of_mem_refs hr

/-- A new value is one that is chosen and that the property does not have. -/
theorem newValue?_eq_some_iff (m : Manifest) (js : Judgements) (p : PropertyRef) (value : String) :
    m.newValue? js p = some value ↔
      ∃ current, m.propertyValue? p = some current ∧
        Voter.chooseValue? (m.voters js p) p.name = some value ∧ value ≠ current := by
  rw [newValue?, Option.bind_eq_some_iff]
  refine exists_congr fun current => and_congr_right fun _ => ?_
  rw [Option.filter_eq_some_iff, decide_eq_true_eq]

/-- There are no votes exactly when every property is kept. -/
theorem propertyVotes_eq_nil_iff (m : Manifest) (js : Judgements) :
    m.propertyVotes js = [] ↔ m.KeepsProperties js := by
  rw [propertyVotes, List.filterMap_eq_nil_iff]
  refine forall₂_congr fun p hp => ?_
  rw [Option.map_eq_none_iff, Option.eq_none_iff_forall_ne_some]
  obtain ⟨current, hc⟩ := Option.isSome_iff_exists.mp
    (isSome_propertyValue?_of_mem_usedProperties hp)
  refine forall_congr' fun value => ?_
  rw [Ne, newValue?_eq_some_iff]
  constructor
  · intro h hv
    by_cases he : value = current
    · rw [hc, he]
    · exact absurd ⟨current, hc, hv, he⟩ h
  · rintro h ⟨current', hc', hv, hne⟩
    rw [h hv] at hc'
    exact hne (Option.some.inj hc')

/-! ## The patch that votes lead to -/

/-- A property that is changed stays changed. -/
theorem isSome_property?_applyVote (m : Manifest) {patch : Patch} {scope : Scope} {name : String}
    (h : (patch.property? scope name).isSome = true) (vote : PropertyRef × String) :
    ((m.applyVote patch vote).property? scope name).isSome = true := by
  obtain ⟨p, value⟩ := vote
  rw [applyVote]
  split
  · exact h
  · rw [Patch.property?_setProperty]
    split
    · rfl
    · exact h

theorem isSome_property?_foldl_applyVote (m : Manifest) {patch : Patch} {scope : Scope}
    {name : String} (h : (patch.property? scope name).isSome = true)
    (votes : List (PropertyRef × String)) :
    ((votes.foldl m.applyVote patch).property? scope name).isSome = true := by
  induction votes generalizing patch with
  | nil => exact h
  | cons vote votes ih => exact ih (m.isSome_property?_applyVote h vote)

/-- The first vote is applied: no other change can give the property its new value. -/
theorem property?_applyVote_empty (m : Manifest) {js : Judgements} {p : PropertyRef}
    {value : String} (h : m.newValue? js p = some value) :
    (m.applyVote .empty (p, value)).property? p.scope p.name = some value := by
  obtain ⟨current, hc, -, hne⟩ := (m.newValue?_eq_some_iff js p value).mp h
  have hr : m.resolvePatched .empty p.scope (m.rawValue p) = current := by
    rw [Environment.resolvePatched_of_silent _ Patch.property?_empty]
    exact Environment.resolve_rawValue hc
  have hne' : current ≠ value := fun he => hne he.symm
  rw [applyVote, hr, decide_eq_false hne', Bool.and_false, if_neg Bool.false_ne_true,
    Patch.property?_setProperty, if_pos ⟨rfl, rfl⟩]

/-- The votes change no property exactly when there are none. -/
theorem propertyPatch_silent_iff (m : Manifest) (js : Judgements) :
    (∀ scope name, (m.propertyPatch js).property? scope name = none) ↔
      m.propertyVotes js = [] := by
  constructor
  · intro h
    by_contra hne
    -- the votes are cast in another order, literal properties first
    have hperm : ∀ vote, vote ∈ (m.propertyVotes js).filter (fun vote => !m.isDerived vote.1) ++
        (m.propertyVotes js).filter (fun vote => m.isDerived vote.1) ↔
          vote ∈ m.propertyVotes js := by
      intro vote
      rw [List.mem_append, List.mem_filter, List.mem_filter]
      cases m.isDerived vote.1 <;> simp
    have hfold : m.propertyPatch js =
        ((m.propertyVotes js).filter (fun vote => !m.isDerived vote.1) ++
          (m.propertyVotes js).filter fun vote => m.isDerived vote.1).foldl m.applyVote .empty :=
      rfl
    rw [hfold] at h
    generalize (m.propertyVotes js).filter (fun vote => !m.isDerived vote.1) ++
      (m.propertyVotes js).filter (fun vote => m.isDerived vote.1) = votes at h hperm
    cases votes with
    | nil =>
      obtain ⟨vote, hv⟩ := List.exists_mem_of_ne_nil _ hne
      exact absurd ((hperm vote).mpr hv) List.not_mem_nil
    | cons vote votes =>
      obtain ⟨p, -, hp⟩ := List.mem_filterMap.mp ((hperm vote).mp List.mem_cons_self)
      obtain ⟨value, hv, rfl⟩ := Option.map_eq_some_iff.mp hp
      -- the first vote is never withheld, and what is set stays set
      have hfirst : ((m.applyVote .empty (p, value)).property? p.scope p.name).isSome = true := by
        rw [m.property?_applyVote_empty hv]
        rfl
      have hall := m.isSome_property?_foldl_applyVote hfirst votes
      rw [List.foldl_cons] at h
      rw [h] at hall
      cases hall
  · intro h scope name
    rw [propertyPatch, h]
    rfl

/-! ## Members that leave no choice -/

/-- The version of a requirement determines the properties that it refers to: whatever values of
theirs make it up, they are the present ones. -/
def DeterminesProperties (m : Manifest) (r : Requirement) : Prop :=
  ∀ values : String → String,
    Template.filling (fun name => some (if name ∈ m.openNames r then values name
      else m.resolve r.origin.scope (Placeholder.text name)))
      (Template.ofText r.declared).segments = r.resolved.toList →
    ∀ p ∈ m.requirementRefs r, m.propertyValue? p = some (values p.name)

/-- A requirement refers to no more than one declared property, and sees it with the value that
it has in its own scope. -/
def ReadsAlone (m : Manifest) (r : Requirement) : Prop :=
  ∀ p ∈ m.requirementRefs r, m.requirementRefs r = [p] ∧
    m.propertyValue? p = some (m.resolve r.origin.scope (Placeholder.text p.name))

instance (m : Manifest) (r : Requirement) : Decidable (m.ReadsAlone r) :=
  inferInstanceAs (Decidable (∀ p ∈ m.requirementRefs r, _))

/-- A requirement that reads a single property determines it. -/
theorem determinesProperties_of_readsAlone {m : Manifest} {r : Requirement}
    (hr : r.resolved = m.resolve r.origin.scope r.declared) (h : m.ReadsAlone r) :
    m.DeterminesProperties r := by
  intro values hfill p hp
  obtain ⟨hrefs, hvalue⟩ := h p hp
  have hopen (name : String) : name ∈ m.openNames r ↔ name = p.name := by
    rw [openNames, hrefs, List.map_singleton, List.mem_singleton]
  -- the other placeholders are fixed, so only one value can make up the version
  have hpresent : Template.filling
      (fun _ => some (m.resolve r.origin.scope (Placeholder.text p.name))) (m.openPieces r) =
        r.resolved.toList := by
    rw [filling_openPieces, hr, Environment.toList_resolve]
    refine Template.filling_congr fun name _ => ?_
    split
    · next ho => rw [(hopen name).mp ho]
    · rfl
  have hvalues : Template.filling (fun _ => some (values p.name)) (m.openPieces r) =
      r.resolved.toList := by
    rw [filling_openPieces, ← hfill]
    refine Template.filling_congr fun name _ => ?_
    by_cases ho : name ∈ m.openNames r
    · rw [if_pos ho, if_pos ho, (hopen name).mp ho]
    · rw [if_neg ho, if_neg ho]
  have hmem := (m.placeholder_mem_openPieces_iff r p.name).mpr ((hopen p.name).mpr rfl)
  rw [hvalue, Template.eq_of_filling_eq hmem (hpresent.trans hvalues.symm)]

/-- A member that keeps its version and determines its properties proposes the values that they
have. -/
theorem proposal_of_determinesProperties {m : Manifest} {r : Requirement} {p : PropertyRef}
    {t : Template} {value : String} (hp : p ∈ m.requirementRefs r)
    (h : m.DeterminesProperties r) (ht : m.memberTemplate? r = some t)
    (hv : Voter.proposal? ⟨t, r.resolved⟩ p.name = some value) :
    m.propertyValue? p = some value := by
  obtain ⟨found, hm, hl⟩ := Option.bind_eq_some_iff.mp hv
  obtain ⟨hbind, hfill⟩ := Template.matches?_sound hm
  rw [segments_of_memberTemplate? ht] at hbind hfill
  have hvalue := h (fun name => (found.lookup name).getD "") ?_ p hp
  · have hl' : found.lookup p.name = some value := hl
    rw [hvalue, hl']
    rfl
  · rw [← hfill, filling_openPieces]
    refine Template.filling_congr fun name _ => ?_
    by_cases ho : name ∈ m.openNames r
    · obtain ⟨x, hx⟩ := Option.isSome_iff_exists.mp
        (hbind name ((m.placeholder_mem_openPieces_iff r name).mpr ho))
      rw [if_pos ho, if_pos ho, hx]
      rfl
    · rw [if_neg ho, if_neg ho]

end Manifest

namespace SuggestOptions

variable {o : SuggestOptions} {m : Manifest} {lookup? : Package → Option Lookup}

/-- The members of a property are requirements that refer to it, with what they should come to. -/
theorem exists_of_mem_voters {p : PropertyRef} {v : Voter}
    (h : v ∈ m.voters (o.judgements m lookup?) p) :
    ∃ r ∈ m.requirements, p ∈ m.requirementRefs r ∧ m.memberTemplate? r = some v.template ∧
      (o.judge r (lookup? r.package)).desired? = some v.desired := by
  rw [Manifest.voters, zip_judgements, List.filterMap_map] at h
  obtain ⟨r, hr, hv⟩ := List.mem_filterMap.mp h
  obtain ⟨hp, hv⟩ := Option.ite_none_right_eq_some.mp hv
  exact ⟨r, hr, hp, Manifest.voter?_eq_some_iff.mp hv⟩

/-- A requirement that is not upgraded keeps its version, or has none. -/
theorem desired?_of_skip {r : Requirement} {l? : Option Lookup}
    (h : (o.judge r l?).skip? ≠ none) {desired : String}
    (hd : (o.judge r l?).desired? = some desired) : desired = r.resolved := by
  have hj := o.fits_judge r l?
  generalize o.judge r l? = j at h hd hj
  cases hj with
  | unknown reason => cases hd
  | kept reason => exact (Option.some.inj hd).symm
  | upgraded version _ => exact absurd rfl h

/-- Where no property changes, a requirement that is not upgraded is skipped. -/
theorem isSkip_outcome {r : Requirement} {l? : Option Lookup} {patch : Patch}
    (hs : ∀ scope name, patch.property? scope name = none)
    (hr : r.resolved = m.resolve r.origin.scope r.declared) (h : (o.judge r l?).skip? ≠ none) :
    ∃ reason, m.outcome patch r (o.judge r l?) = .skip r reason := by
  have hj := o.fits_judge r l?
  generalize o.judge r l? = j at h hj
  cases hj with
  | unknown reason => exact ⟨_, rfl⟩
  | kept reason =>
    refine ⟨reason, ?_⟩
    rw [m.outcome_keep, if_neg]
    rintro ⟨-, hm⟩
    rw [Environment.resolvePatched_of_silent _ hs] at hm
    exact hm hr.symm
  | upgraded version _ => exact absurd rfl h

/-- Where no requirement is upgraded, the patch is empty exactly when every property is kept. -/
theorem isEmpty_iff_keepsProperties
    (hresolved : ∀ r ∈ m.requirements, r.resolved = m.resolve r.origin.scope r.declared)
    (h : ∀ r ∈ m.requirements, (o.judge r (lookup? r.package)).skip? ≠ none) :
    (o.suggest m lookup?).patch.isEmpty = true ↔ m.KeepsProperties (o.judgements m lookup?) := by
  rw [← m.propertyVotes_eq_nil_iff, ← m.propertyPatch_silent_iff, Patch.isEmpty_iff]
  constructor
  · exact fun he => he.2
  · intro hs
    -- no property changes, so that nothing is pinned and every outcome is a skip
    refine ⟨?_, hs⟩
    rw [dependencies_suggest, List.filterMap_eq_nil_iff]
    intro r hr
    have hsilent (scope : Scope) (name : String) :
        (o.suggest m lookup?).patch.property? scope name = none := hs scope name
    obtain ⟨reason, ho⟩ := isSkip_outcome hsilent (hresolved r hr) (h r hr)
    rw [ho]
    rfl

/-- Where no requirement is upgraded and each one determines its properties, the patch is empty. -/
theorem isEmpty_of_determinesProperties
    (hresolved : ∀ r ∈ m.requirements, r.resolved = m.resolve r.origin.scope r.declared)
    (h : ∀ r ∈ m.requirements, (o.judge r (lookup? r.package)).skip? ≠ none)
    (hd : ∀ r ∈ m.requirements, m.DeterminesProperties r) :
    (o.suggest m lookup?).patch.isEmpty = true := by
  refine (isEmpty_iff_keepsProperties hresolved h).mpr fun p _ value hv => ?_
  obtain ⟨⟨t, desired⟩, hvoter, hpropose⟩ := Voter.exists_of_chooseValue? hv
  obtain ⟨r, hr, hp, ht, hdesired⟩ := exists_of_mem_voters hvoter
  obtain rfl := desired?_of_skip (h r hr) hdesired
  exact Manifest.proposal_of_determinesProperties hp (hd r hr) ht hpropose

/-- **Where no requirement is upgraded, the patch is empty exactly when every property is kept**,
that is, when the members of each used property choose no other value than the one it has. This is
so if every version determines the properties that it is made of, and so at least if each
requirement refers to one property only and sees it as its own scope does. -/
theorem suggest_isEmpty_iff_keepsProperties (o : SuggestOptions)
    (lookup? : Package → Option Lookup) {text : String} {m : Manifest}
    (hm : Manifest.read text = .ok m)
    (h : ∀ r ∈ m.requirements, (o.judge r (lookup? r.package)).skip? ≠ none) :
    ((o.suggest m lookup?).patch.isEmpty = true ↔
      m.KeepsProperties (o.judgements m lookup?)) ∧
    ((∀ r ∈ m.requirements, m.DeterminesProperties r) →
      (o.suggest m lookup?).patch.isEmpty = true) ∧
    ((∀ r ∈ m.requirements, m.ReadsAlone r) → (o.suggest m lookup?).patch.isEmpty = true) := by
  have hresolved (r : Requirement) (hr : r ∈ m.requirements) :=
    Manifest.resolved_of_mem hm hr
  have hdetermined (hd : ∀ r ∈ m.requirements, m.DeterminesProperties r) :=
    isEmpty_of_determinesProperties hresolved h hd
  refine ⟨isEmpty_iff_keepsProperties hresolved h, hdetermined,
    fun halone => hdetermined fun r hr => ?_⟩
  exact Manifest.determinesProperties_of_readsAlone (hresolved r hr) (halone r hr)

/-- The one version in use is the only one, so nothing is suggested. -/
theorem suggest_isEmpty_of_single_property :
    ∃ m, Manifest.read (String.join (oneDependency "<v>1.0</v>" "$\x7bv\x7d")) = .ok m ∧
      (∀ r ∈ m.requirements, (free.judge r (some (.found ["1.0"]))).skip? ≠ none) ∧
      (free.suggest m fun _ => some (.found ["1.0"])).patch.isEmpty = true := by
  obtain ⟨m, hm, h⟩ := Manifest.exists_of_any
    (oneDependency "<v>1.0</v>" "$\x7bv\x7d") (fun m =>
      (∀ r ∈ m.requirements, (free.judge r (some (.found ["1.0"]))).skip? ≠ none) ∧
        ∀ r ∈ m.requirements, m.ReadsAlone r)
    (by decide +kernel)
  obtain ⟨hskip, halone⟩ := of_decide_eq_true h
  have hempty := suggest_isEmpty_iff_keepsProperties .free (fun _ => some (.found ["1.0"])) hm hskip
  exact ⟨m, hm, hskip, hempty.2.2 halone⟩

/-- A version that can be split in two ways is split anew: nothing is upgraded, and still both
properties get other values. -/
theorem suggest_splits_anew :
    ∃ m, Manifest.read (String.join
        (oneDependency "<x>1.2</x><y>3</y>" "$\x7bx\x7d.$\x7by\x7d")) = .ok m ∧
      (∀ r ∈ m.requirements,
        (free.judge r (some (.found ["1.2.3"]))).skip? = some .alreadyLatest) ∧
      (free.suggest m fun _ => some (.found ["1.2.3"])).patch.propertyChanges =
        [(.root, "x", "1"), (.root, "y", "2.3")] := by
  obtain ⟨m, hm, h⟩ := Manifest.exists_of_any
    (oneDependency "<x>1.2</x><y>3</y>" "$\x7bx\x7d.$\x7by\x7d") (fun m =>
      (∀ r ∈ m.requirements,
        (free.judge r (some (.found ["1.2.3"]))).skip? = some .alreadyLatest) ∧
      (free.suggest m fun _ => some (.found ["1.2.3"])).patch.propertyChanges =
        [(.root, "x", "1"), (.root, "y", "2.3")])
    (by decide +kernel)
  exact ⟨m, hm, of_decide_eq_true h⟩

end SuggestOptions

end MavenUpgrade

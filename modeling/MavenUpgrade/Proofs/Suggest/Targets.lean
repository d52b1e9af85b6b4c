import Mathlib
import MavenUpgrade.Proofs.Pom.Editing
import MavenUpgrade.Proofs.Suggest.Convergence
import MavenUpgrade.Proofs.Suggest.Updated
import MavenUpgrade.Run.Plan

/-!
# What a suggested patch names

Each change of a suggested patch names a declaration of the document, and no two changes name the
same one. So the patch is applied exactly when the texts of these declarations can be edited; the
only way to be refused is that one of them is not plain.
-/

namespace MavenUpgrade

/-! ## The targets of a patch -/

/-- No target is changed twice if no dependency is overridden twice. -/
theorem Patch.nodup_targets {p : Patch}
    (h : (p.dependencies.map fun d => (d.package, d.origin)).Nodup) :
    (p.changes.map Prod.fst).Nodup := by
  have hproperties := p.nodup_propertyChanges
  rw [List.Nodup, List.pairwise_map] at h hproperties ⊢
  rw [changes, List.pairwise_append, List.pairwise_map, List.pairwise_map]
  have hoverrides : p.dependencies.Pairwise fun d e =>
      PatchTarget.dependency d.package d.origin ≠ .dependency e.package e.origin := by
    refine h.imp fun hne he => hne ?_
    obtain ⟨hp, ho⟩ := PatchTarget.dependency.inj he
    rw [hp, ho]
  have hvalues : p.propertyChanges.Pairwise fun c c' =>
      PatchTarget.property c.1 c.2.1 ≠ .property c'.1 c'.2.1 := by
    refine hproperties.imp fun hne he => hne ?_
    obtain ⟨hs, hn⟩ := PatchTarget.property.inj he
    rw [hs, hn]
  refine ⟨hoverrides, hvalues, fun c hc c' hc' he => ?_⟩
  obtain ⟨d, -, rfl⟩ := List.mem_map.mp hc
  obtain ⟨change, -, rfl⟩ := List.mem_map.mp hc'
  cases he

namespace Manifest

variable {m : Manifest} {pom : Pom}

/-- The value of a property that votes change is one that is voted for, unless it was set before. -/
theorem mem_votes_of_property? {votes : List (PropertyRef × String)} {patch : Patch}
    {scope : Scope} {name value : String}
    (h : (votes.foldl m.applyVote patch).property? scope name = some value) :
    patch.property? scope name = some value ∨ (⟨scope, name⟩, value) ∈ votes := by
  induction votes generalizing patch with
  | nil => exact Or.inl h
  | cons vote votes ih =>
    obtain ⟨p, v⟩ := vote
    rcases ih h with hfirst | hmem
    · rw [applyVote] at hfirst
      split at hfirst
      · exact Or.inl hfirst
      · rw [Patch.property?_setProperty] at hfirst
        split at hfirst
        · next hkey =>
          obtain ⟨rfl, rfl⟩ := hkey
          obtain rfl := Option.some.inj hfirst
          exact Or.inr List.mem_cons_self
        · exact Or.inl hfirst
    · exact Or.inr (List.mem_cons_of_mem _ hmem)

/-- A property that is changed is one that some requirement refers to, and gets the new value that
its members choose. -/
theorem newValue?_of_property? {js : Judgements} {scope : Scope} {name value : String}
    (h : (m.propertyPatch js).property? scope name = some value) :
    ⟨scope, name⟩ ∈ m.usedProperties ∧ m.newValue? js ⟨scope, name⟩ = some value := by
  rcases mem_votes_of_property? h with h | hv
  · rw [Patch.property?_empty] at h
    cases h
  · have hvote : (⟨scope, name⟩, value) ∈ m.propertyVotes js := by
      rcases List.mem_append.mp hv with hv | hv
      · exact List.mem_of_mem_filter hv
      · exact List.mem_of_mem_filter hv
    obtain ⟨q, hq, hmap⟩ := List.mem_filterMap.mp hvote
    obtain ⟨w, hw, he⟩ := Option.map_eq_some_iff.mp hmap
    obtain ⟨rfl, rfl⟩ := Prod.mk.inj he
    exact ⟨hq, hw⟩

/-- A used property is declared by the document. -/
theorem spanOf?_of_mem_usedProperties {p : PropertyRef}
    (h : p ∈ (ofPom pom).usedProperties) :
    (pom.spanOf? (.property p.scope p.name)).isSome = true := by
  have hvalue := isSome_propertyValue?_of_mem_usedProperties h
  rw [Environment.propertyValue?, Option.isSome_map] at hvalue
  have hget : ((environmentOf pom).properties.get? p.scope p.name).isSome = true := hvalue
  rw [get?_environmentOf, Option.isSome_map, Option.isSome_iff_exists] at hget
  obtain ⟨d, hd⟩ := hget
  obtain ⟨hmem, hkey⟩ := List.mem_filter.mp (List.mem_of_getLast? hd)
  rw [Pom.spanOf?, Option.isSome_map, List.find?_isSome]
  exact ⟨d, hmem, hkey⟩

/-- A requirement is declared by the document. -/
theorem spanOf?_of_mem_requirements {r : Requirement} (h : r ∈ (ofPom pom).requirements) :
    (pom.spanOf? (.dependency r.package r.origin)).isSome = true := by
  obtain ⟨d, hd, rfl⟩ := List.mem_map.mp h
  rw [Pom.spanOf?, Option.isSome_map, List.find?_isSome]
  exact ⟨d, mem_of_mem_distinctBy hd, decide_eq_true ⟨rfl, rfl⟩⟩

end Manifest

namespace SuggestOptions

variable (o : SuggestOptions) (lookup? : Package → Option Lookup)

/-- **Each change of a suggestion names a declaration.** -/
theorem declared_of_mem_changes {pom : Pom} {change : PatchTarget × String}
    (h : change ∈ (o.suggest (.ofPom pom) lookup?).patch.changes) :
    (pom.spanOf? change.1).isSome = true := by
  rcases List.mem_append.mp h with h | h
  · obtain ⟨d, hd, rfl⟩ := List.mem_map.mp h
    rw [dependencies_suggest] at hd
    obtain ⟨r, hr, hover⟩ := List.mem_filterMap.mp hd
    obtain ⟨hp, ho⟩ := Prod.mk.inj (Manifest.key_of_overrideOf? hover)
    show (pom.spanOf? (.dependency d.package d.origin)).isSome = true
    rw [hp, ho]
    exact Manifest.spanOf?_of_mem_requirements hr
  · obtain ⟨⟨scope, name, value⟩, hc, rfl⟩ := List.mem_map.mp h
    have hvalue := (Patch.mem_propertyChanges_iff _ scope name value).mp hc
    have hused : PropertyRef.mk scope name ∈ (Manifest.ofPom pom).usedProperties :=
      (Manifest.newValue?_of_property? hvalue).1
    exact Manifest.spanOf?_of_mem_usedProperties hused

/-- **No two changes of a suggestion name the same declaration.** -/
theorem nodup_targets_suggest (pom : Pom) :
    ((o.suggest (.ofPom pom) lookup?).patch.changes.map Prod.fst).Nodup := by
  refine Patch.nodup_targets ?_
  have hlength : (Manifest.ofPom pom).requirements.length ≤
      (o.judgements (.ofPom pom) lookup?).length := by
    rw [judgements, List.length_map]
  show (((Manifest.ofPom pom).arbitrate (o.judgements (.ofPom pom) lookup?)).dependencies.map
    fun d => (d.package, d.origin)).Nodup
  rw [Manifest.dependencies_eq]
  exact Manifest.nodup_overrides
    (f := fun r j => Manifest.overrideOf? ((Manifest.ofPom pom).outcome _ r j))
    (Manifest.nodup_keys pom) (fun _ _ _ h => Manifest.key_of_overrideOf? h) hlength

/-! ## Refused suggestions -/

variable {text : String} {pom : Pom}

/-- A suggestion is refused because of the first change whose target is declared in a text that
cannot be edited, and for no other reason. -/
theorem exists_not_plain_of_suggest_refused (hread : Pom.read text = .ok pom)
    {error : PatchError}
    (h : applyPatch text (o.suggest (.ofPom pom) lookup?).patch = .error error) :
    ∃ before change after,
      (o.suggest (.ofPom pom) lookup?).patch.changes = before ++ change :: after ∧
        (∀ c ∈ before, pom.CanEdit c.1) ∧ pom.spanOf? change.1 = some none ∧
          error = .notPlain change.1 := by
  rcases Pom.exists_of_applyPatch_eq_error hread h with
    ⟨before, change, after, hchanges, hbefore, hfail⟩ | ⟨spans, hspans, hover⟩
  · refine ⟨before, change, after, hchanges, hbefore, ?_⟩
    rcases Pom.eq_of_editOf_eq_error hfail with hplain | ⟨hnone, -⟩
    · exact hplain
    · have hmem : change ∈ (o.suggest (.ofPom pom) lookup?).patch.changes := by
        rw [hchanges]
        exact List.mem_append_right _ List.mem_cons_self
      have hdeclared := o.declared_of_mem_changes lookup? hmem
      rw [hnone] at hdeclared
      cases hdeclared
  · -- different targets have texts that are apart
    exact absurd (Pom.pairwise_apart_of_spans hread hspans (o.nodup_targets_suggest lookup? pom))
      hover

/-- **A suggestion names declarations of its document only, none of them twice; if it is refused,
this is because one of them cannot be edited in place, and never because of a conflict, a
declaration that is missing or a document that cannot be read.** -/
theorem suggest_names_declarations (hread : Pom.read text = .ok pom) :
    (∀ change ∈ (o.suggest (.ofPom pom) lookup?).patch.changes,
        (pom.spanOf? change.1).isSome = true) ∧
      ((o.suggest (.ofPom pom) lookup?).patch.changes.map Prod.fst).Nodup ∧
      ∀ error, applyPatch text (o.suggest (.ofPom pom) lookup?).patch = .error error →
        ∃ target ∈ (o.suggest (.ofPom pom) lookup?).patch.changes.map Prod.fst,
          pom.spanOf? target = some none ∧ error = .notPlain target := by
  refine ⟨fun change hc => o.declared_of_mem_changes lookup? hc,
    o.nodup_targets_suggest lookup? pom, fun error h => ?_⟩
  obtain ⟨before, change, after, hchanges, -, hs, he⟩ :=
    o.exists_not_plain_of_suggest_refused lookup? hread h
  refine ⟨change.1, List.mem_map_of_mem ?_, hs, he⟩
  rw [hchanges]
  exact List.mem_append_right _ List.mem_cons_self

/-- The suggestion for a version that is written out and one that is written as a property names
both. -/
theorem suggest_names_two_declarations :
    ∃ pom out, Pom.read (String.join (twoDependencies "1" "1.0")) = .ok pom ∧
      (free.suggest (.ofPom pom) foundTwo).patch.changes =
        [(.dependency (.ofCoordinates "g" "c") .direct, "2.0"), (.property .root "v", "2.0")] ∧
      applyPatch (String.join (twoDependencies "1" "1.0"))
        (free.suggest (.ofPom pom) foundTwo).patch = .ok out := by
  obtain ⟨pom, hread, h⟩ := Pom.exists_of_any (twoDependencies "1" "1.0") (fun pom =>
    (free.suggest (.ofPom pom) foundTwo).patch.changes =
        [(.dependency (.ofCoordinates "g" "c") .direct, "2.0"), (.property .root "v", "2.0")] ∧
      ∀ change ∈ (free.suggest (.ofPom pom) foundTwo).patch.changes,
        pom.spanOf? change.1 ≠ some none)
    (by decide +kernel)
  obtain ⟨hchanges, hplain⟩ := of_decide_eq_true h
  obtain ⟨-, -, hrefused⟩ := free.suggest_names_declarations foundTwo hread
  cases happly : applyPatch (String.join (twoDependencies "1" "1.0"))
      (free.suggest (.ofPom pom) foundTwo).patch with
  | ok out => exact ⟨pom, out, hread, hchanges, happly⟩
  | error error =>
    obtain ⟨target, ht, hs, -⟩ := hrefused error happly
    obtain ⟨change, hc, rfl⟩ := List.mem_map.mp ht
    exact absurd hs (hplain change hc)

end SuggestOptions

/-! ## Runs with a text that cannot be edited -/

/-- What the lookups of a plan find for the packages that a manifest needs. -/
def LookupPlan.lookup? (l : LookupPlan) (o : SuggestOptions) (m : Manifest) :
    Package → Option Lookup :=
  fun package => (l.outcomes (o.packagesToFetch m)).lookup package

namespace UpgradePlan

/-- A plan is made by applying the suggestion for its document. -/
theorem make_eq (o : SuggestOptions) (l : LookupPlan) {text : String} {pom : Pom}
    (hread : Pom.read text = .ok pom) :
    make o l text = ((applyPatch text
      (o.suggest (.ofPom pom) (l.lookup? o (.ofPom pom))).patch).mapError .patch).map
        fun after => ⟨pom.root.text, o.suggest (.ofPom pom) (l.lookup? o (.ofPom pom)),
          text, after⟩ := by
  unfold make
  rw [Manifest.read, hread]
  show ((applyPatch text (o.suggest (.ofPom pom) (l.lookup? o (.ofPom pom))).patch).mapError
    RunError.patch).bind (fun after => Except.ok (UpgradePlan.mk pom.root.text _ text after)) = _
  cases applyPatch text (o.suggest (.ofPom pom) (l.lookup? o (.ofPom pom))).patch <;> rfl

/-- A plan fails as the suggestion for its document is refused. -/
theorem make_eq_error {o : SuggestOptions} {l : LookupPlan} {text : String} {pom : Pom}
    {error : PatchError} (hread : Pom.read text = .ok pom)
    (h : applyPatch text (o.suggest (.ofPom pom) (l.lookup? o (.ofPom pom))).patch =
      .error error) : make o l text = .error (.patch error) := by
  rw [make_eq o l hread, h]
  rfl

end UpgradePlan

namespace SuggestOptions

/-- **Whether a text can be edited is not asked before a change is suggested: a suggestion can be
applied exactly when the first declarations of all its targets can be edited. Otherwise the first
one that cannot makes it, and with it the whole run, fail.** -/
theorem suggest_applies_iff_canEdit (o : SuggestOptions) (lookup? : Package → Option Lookup)
    {text : String} {pom : Pom} (hread : Pom.read text = .ok pom) :
    ((∃ out, applyPatch text (o.suggest (.ofPom pom) lookup?).patch = .ok out) ↔
        ∀ change ∈ (o.suggest (.ofPom pom) lookup?).patch.changes, pom.CanEdit change.1) ∧
      ∀ error, applyPatch text (o.suggest (.ofPom pom) lookup?).patch = .error error →
        ∃ before change after,
          (o.suggest (.ofPom pom) lookup?).patch.changes = before ++ change :: after ∧
            (∀ c ∈ before, pom.CanEdit c.1) ∧ pom.spanOf? change.1 = some none ∧
              error = .notPlain change.1 ∧
              ∀ l : LookupPlan, l.lookup? o (.ofPom pom) = lookup? →
                UpgradePlan.make o l text = .error (.patch (.notPlain change.1)) := by
  refine ⟨Pom.exists_applyPatch_iff_canEdit hread (o.nodup_targets_suggest lookup? pom),
    fun error h => ?_⟩
  obtain ⟨before, change, after, hchanges, hbefore, hs, rfl⟩ :=
    o.exists_not_plain_of_suggest_refused lookup? hread h
  refine ⟨before, change, after, hchanges, hbefore, hs, rfl, ?_⟩
  rintro l rfl
  exact UpgradePlan.make_eq_error hread h

/-- A run fails because of a version in a literal section. -/
theorem run_refused_in_literal_section :
    ∃ pom, Pom.read (String.join (oneDependency "" "<![CDATA[1.0]]>")) = .ok pom ∧
      UpgradePlan.make free ⟨1, false, foundTwo⟩
          (String.join (oneDependency "" "<![CDATA[1.0]]>")) =
        .error (.patch (.notPlain (.dependency (.ofCoordinates "g" "b") .direct))) := by
  obtain ⟨pom, hread, h⟩ := Pom.exists_of_any (oneDependency "" "<![CDATA[1.0]]>") (fun pom =>
    (free.suggest (.ofPom pom) (LookupPlan.lookup? ⟨1, false, foundTwo⟩ free
        (.ofPom pom))).patch.changes = [(.dependency (.ofCoordinates "g" "b") .direct, "2.0")] ∧
      pom.spanOf? (.dependency (.ofCoordinates "g" "b") .direct) = some none)
    (by decide +kernel)
  obtain ⟨hchanges, hs⟩ := of_decide_eq_true h
  obtain ⟨happlies, hrefused⟩ := free.suggest_applies_iff_canEdit
    (LookupPlan.lookup? ⟨1, false, foundTwo⟩ free (.ofPom pom)) hread
  rw [hchanges] at happlies hrefused
  refine ⟨pom, hread, ?_⟩
  cases happly : applyPatch (String.join (oneDependency "" "<![CDATA[1.0]]>"))
      (free.suggest (.ofPom pom) (LookupPlan.lookup? ⟨1, false, foundTwo⟩ free
        (.ofPom pom))).patch with
  | ok out =>
    obtain ⟨span, hspan⟩ := happlies.mp ⟨out, happly⟩ _ List.mem_cons_self
    rw [hs] at hspan
    cases hspan
  | error error =>
    obtain ⟨before, change, after, hsplit, -, -, -, hrun⟩ := hrefused error happly
    have hmem : change ∈ [(PatchTarget.dependency (.ofCoordinates "g" "b") .direct, "2.0")] :=
      hsplit ▸ List.mem_append_right _ List.mem_cons_self
    rw [List.mem_singleton.mp hmem] at hrun
    exact hrun _ rfl

/-- A version in a literal section is overridden all the same, so that the whole patch is refused,
the new value of a plain property with it. -/
theorem suggest_overrides_literal_section :
    ∃ pom, Pom.read (String.join (twoDependencies "1" "<![CDATA[1.0]]>")) = .ok pom ∧
      (.dependency (.ofCoordinates "g" "c") .direct, "2.0") ∈
        (free.suggest (.ofPom pom) foundTwo).patch.changes ∧
      ¬ pom.CanEdit (.dependency (.ofCoordinates "g" "c") .direct) ∧
      pom.CanEdit (.property .root "v") ∧
      applyPatch (String.join (twoDependencies "1" "<![CDATA[1.0]]>"))
          (free.suggest (.ofPom pom) foundTwo).patch =
        .error (.notPlain (.dependency (.ofCoordinates "g" "c") .direct)) := by
  obtain ⟨pom, hread, h⟩ := Pom.exists_of_any (twoDependencies "1" "<![CDATA[1.0]]>") (fun pom =>
    (free.suggest (.ofPom pom) foundTwo).patch.changes =
        [(.dependency (.ofCoordinates "g" "c") .direct, "2.0"), (.property .root "v", "2.0")] ∧
      pom.spanOf? (.dependency (.ofCoordinates "g" "c") .direct) = some none ∧
      ((pom.spanOf? (.property .root "v")).join).isSome = true)
    (by decide +kernel)
  obtain ⟨hchanges, hs, hv⟩ := of_decide_eq_true h
  obtain ⟨span, hspan⟩ := Option.isSome_iff_exists.mp hv
  have hmem : (.dependency (.ofCoordinates "g" "c") .direct, "2.0") ∈
      (free.suggest (.ofPom pom) foundTwo).patch.changes := hchanges ▸ List.mem_cons_self
  have hcannot : ¬ pom.CanEdit (.dependency (.ofCoordinates "g" "c") .direct) := by
    rintro ⟨span, hspan⟩
    rw [hs] at hspan
    cases hspan
  refine ⟨pom, hread, hmem, hcannot, ⟨span, Option.join_eq_some_iff.mp hspan⟩, ?_⟩
  cases happly : applyPatch (String.join (twoDependencies "1" "<![CDATA[1.0]]>"))
      (free.suggest (.ofPom pom) foundTwo).patch with
  | ok out =>
    have hcan := (Pom.exists_applyPatch_iff_canEdit hread
      (free.nodup_targets_suggest foundTwo pom)).mp ⟨out, happly⟩
    exact absurd (hcan _ hmem) hcannot
  | error error =>
    obtain ⟨before, change, after, hsplit, hbefore, hsome, rfl⟩ :=
      free.exists_not_plain_of_suggest_refused foundTwo hread happly
    rw [hchanges] at hsplit
    -- nothing that can be edited comes before the first change
    cases before with
    | nil => rw [← (List.cons.inj hsplit).1]
    | cons c before =>
      rw [← (List.cons.inj hsplit).1] at hbefore
      exact absurd (hbefore _ List.mem_cons_self) hcannot

end SuggestOptions

end MavenUpgrade

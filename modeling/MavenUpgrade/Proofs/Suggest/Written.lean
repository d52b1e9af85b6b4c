import Mathlib
import MavenUpgrade.Proofs.Manifest.Applying
import MavenUpgrade.Proofs.Suggest.Outcome

/-!
# Requirements of a patched document

What a requirement resolves to when the patch of a suggestion has been applied to its document and
the document is read again (`Manifest.Follows.resolvesTo_iff`). This is what was foreseen for its
text, unless a changed property is declared twice or a new version of the parent changes a value
that the text reaches (`Manifest.Follows.resolveSettled_eq`).
-/

namespace MavenUpgrade

/-! ## The overrides of requirements -/

namespace Manifest

variable {m : Manifest} {js : Judgements} {f : Requirement → Judgement → Option DependencyPatch}

/-- The override that an outcome asks for is one of its requirement. -/
theorem key_of_overrideOf? {patch : Patch} {r : Requirement} {j : Judgement} {d : DependencyPatch}
    (h : overrideOf? (m.outcome patch r j) = some d) : (d.package, d.origin) = r.key := by
  rw [← m.requirement_outcome patch r j]
  generalize m.outcome patch r j = outcome at h ⊢
  unfold overrideOf? at h
  split at h
  · cases h
  · obtain rfl := Option.some.inj h
    rfl
  · cases h

/-- The overrides of a manifest are those that the outcomes of its requirements ask for. -/
theorem dependencies_eq (m : Manifest) (js : Judgements) :
    (m.arbitrate js).dependencies = (m.requirements.zip js).filterMap fun (r, j) =>
      overrideOf? (m.outcome (m.propertyPatch js) r j) :=
  List.filterMap_map

/-- Overrides of requirements with different keys are overrides of different declarations. -/
theorem nodup_overrides (hkeys : (m.requirements.map (·.key)).Nodup)
    (hf : ∀ r j d, f r j = some d → (d.package, d.origin) = r.key)
    (hlength : m.requirements.length ≤ js.length) :
    (((m.requirements.zip js).filterMap fun (r, j) => f r j).map fun d =>
      (d.package, d.origin)).Nodup := by
  have hzip : ((m.requirements.zip js).map fun e => e.1.key).Nodup := by
    have hfst : (m.requirements.zip js).map Prod.fst = m.requirements :=
      List.map_fst_zip hlength
    rw [← hfst, List.map_map] at hkeys
    exact hkeys
  rw [List.Nodup, List.pairwise_map] at hzip ⊢
  rw [List.pairwise_filterMap]
  refine hzip.imp fun {e e'} hne d hd d' hd' he => hne ?_
  rw [← hf _ _ d hd, ← hf _ _ d' hd', he]

/-- Among overrides of requirements with different keys, those of a requirement are the one that it
gives rise to itself. -/
theorem mem_overrides_iff (hkeys : (m.requirements.map (·.key)).Nodup)
    (hf : ∀ r j d, f r j = some d → (d.package, d.origin) = r.key) {i : Nat} {r : Requirement}
    {j : Judgement} (hr : m.requirements[i]? = some r) (hj : js[i]? = some j)
    (d : DependencyPatch) :
    (d ∈ ((m.requirements.zip js).filterMap fun (r, j) => f r j) ∧
        d.package = r.package ∧ d.origin = r.origin) ↔ f r j = some d := by
  constructor
  · rintro ⟨hd, hp, ho⟩
    obtain ⟨⟨r', j'⟩, hmem, hd'⟩ := List.mem_filterMap.mp hd
    obtain ⟨i', hi'⟩ := List.mem_iff_getElem?.mp hmem
    obtain ⟨hr', hj'⟩ := List.getElem?_zip_eq_some.mp hi'
    -- the override is one of a requirement with the same key, and so at the same index
    have hkey : r'.key = r.key := by
      rw [← hf r' j' d hd', hp, ho]
      rfl
    have hlt : i < (m.requirements.map (·.key)).length := by
      rw [List.length_map]
      exact (List.getElem?_eq_some_iff.mp hr).1
    obtain rfl : i = i' := (List.getElem?_inj hlt hkeys).mp (by
      rw [List.getElem?_map, List.getElem?_map, hr, hr', Option.map_some, Option.map_some, hkey])
    obtain rfl : j = j' := Option.some.inj (hj.symm.trans hj')
    obtain rfl : r = r' := Option.some.inj (hr.symm.trans hr')
    exact hd'
  · intro h
    obtain ⟨hp, ho⟩ := Prod.mk.inj (hf r j d h)
    refine ⟨List.mem_filterMap.mpr ⟨(r, j), ?_, h⟩, hp, ho⟩
    exact List.mem_of_getElem? (List.getElem?_zip_eq_some.mpr ⟨hr, hj⟩)

/-- Among overrides of requirements with different keys, that of a requirement is found. -/
theorem find?_overrides (hkeys : (m.requirements.map (·.key)).Nodup)
    (hf : ∀ r j d, f r j = some d → (d.package, d.origin) = r.key) {i : Nat} {r : Requirement}
    {j : Judgement} (hr : m.requirements[i]? = some r) (hj : js[i]? = some j) :
    ((m.requirements.zip js).filterMap fun (r, j) => f r j).find?
        (fun d => d.package = r.package ∧ d.origin = r.origin) = f r j := by
  have hiff := mem_overrides_iff hkeys hf hr hj
  have hown {d : DependencyPatch} (hfound : ((m.requirements.zip js).filterMap fun (r, j) =>
      f r j).find? (fun d => d.package = r.package ∧ d.origin = r.origin) = some d) :
      f r j = some d := by
    have hkey := List.find?_some hfound
    exact (hiff d).mp ⟨List.mem_of_find?_eq_some hfound, of_decide_eq_true hkey⟩
  cases hfound : ((m.requirements.zip js).filterMap fun (r, j) => f r j).find?
      (fun d => d.package = r.package ∧ d.origin = r.origin) with
  | some d => exact (hown hfound).symm
  | none =>
    cases hd : f r j with
    | none => rfl
    | some d =>
      -- its override is in the list, where nothing was found
      obtain ⟨hmem, hkey⟩ := (hiff d).mpr hd
      exact absurd (decide_eq_true hkey) (List.find?_eq_none.mp hfound d hmem)

end Manifest

namespace SuggestOptions

variable (o : SuggestOptions) (lookup? : Package → Option Lookup) {pom : Pom}

/-- The override of a requirement is the one that its outcome asks for. -/
theorem dependency?_suggest (pom : Pom) {r : Requirement}
    (hr : r ∈ (Manifest.ofPom pom).requirements) :
    (o.suggest (.ofPom pom) lookup?).patch.dependency? r.package r.origin =
      Manifest.overrideOf? ((Manifest.ofPom pom).outcome
        (o.suggest (.ofPom pom) lookup?).patch r (o.judge r (lookup? r.package))) := by
  obtain ⟨i, hi⟩ := List.mem_iff_getElem?.mp hr
  have hj : (o.judgements (.ofPom pom) lookup?)[i]? = some (o.judge r (lookup? r.package)) := by
    rw [judgements, List.getElem?_map, hi, Option.map_some]
  show ((Manifest.ofPom pom).arbitrate (o.judgements (.ofPom pom) lookup?)).dependencies.find? _ =
    Manifest.overrideOf? ((Manifest.ofPom pom).outcome
      { (Manifest.ofPom pom).propertyPatch (o.judgements (.ofPom pom) lookup?) with
        dependencies := _ } r _)
  rw [Manifest.outcome_overrides, Manifest.dependencies_eq]
  exact Manifest.find?_overrides
    (f := fun r j => Manifest.overrideOf? ((Manifest.ofPom pom).outcome _ r j))
    (Manifest.nodup_keys pom) (fun _ _ _ h => Manifest.key_of_overrideOf? h) hi hj

/-- The override of a requirement with a result is the one that the result asks for. -/
theorem dependency?_of_results {i : Nat} {outcome : Outcome}
    (h : (o.suggest (.ofPom pom) lookup?).results[i]? = some outcome) :
    (o.suggest (.ofPom pom) lookup?).patch.dependency? outcome.requirement.package
      outcome.requirement.origin = Manifest.overrideOf? outcome := by
  obtain ⟨hr, ho⟩ := o.exists_of_results lookup? h
  rw [o.dependency?_suggest lookup? pom (List.mem_of_getElem? hr), ho]

end SuggestOptions

/-! ## What it resolves to -/

/-- The value of a text in a scope of a document once a patch has been written, beside the
coordinates of another environment. -/
def Pom.resolveSettled (pom : Pom) (patch : Patch) (other : Environment) (scope : Scope)
    (text : String) : String :=
  Interpolation.interpolate (pom.lookupSettled? patch other scope) text

/-- What a requirement comes to under a patch can be foreseen: each changed property that its text
reaches is declared once, and the text reaches no version that a new version of the parent
changes. -/
structure Pom.Foresees (pom : Pom) (patch : Patch) (r : Requirement) : Prop where
  once : ∀ name, Interpolation.Reaches
    ((Manifest.ofPom pom).lookupPatched? patch r.origin.scope) r.declared name →
      pom.DeclaresOnce patch r.origin.scope name
  apart : (∀ d ∈ patch.dependencies, d.origin ≠ .parent) ∨ ∀ name ∈ Environment.versionNames,
    ¬ Interpolation.Reaches
      ((Manifest.ofPom pom).lookupPatched? patch r.origin.scope) r.declared name

namespace Manifest

/-- The requirement at an index is one on the package and in the place of a given requirement, and
has a given version. -/
def ResolvesTo (m : Manifest) (i : Nat) (r : Requirement) (version : String) : Prop :=
  ∃ r', m.requirements[i]? = some r' ∧ r'.package = r.package ∧ r'.origin = r.origin ∧
    r'.resolved = version

variable {pom : Pom} {m' : Manifest} {patch : Patch}

/-- Texts have the values that the properties settle on. -/
theorem Follows.resolve_eq (h : Follows pom patch m') (scope : Scope) (text : String) :
    m'.resolve scope text = pom.resolveSettled patch m'.toEnvironment scope text := by
  rw [Environment.resolve, h.lookup?, Pom.resolveSettled]

/-- A requirement resolves to the value that its text settles on. -/
theorem Follows.resolvesTo_iff (h : Follows pom patch m') {i : Nat} {r : Requirement}
    (hr : (ofPom pom).requirements[i]? = some r) (version : String) :
    m'.ResolvesTo i r version ↔
      pom.resolveSettled patch m'.toEnvironment r.origin.scope
        (((patch.dependency? r.package r.origin).map (·.newRequire)).getD r.declared) =
          version := by
  have hr' : m'.requirements[i]? = some (r.follow patch m'.toEnvironment) := by
    rw [h.requirements, List.getElem?_map, hr]
    rfl
  rw [← h.resolve_eq]
  constructor
  · rintro ⟨r', hi, -, -, hv⟩
    obtain rfl := Option.some.inj (hr'.symm.trans hi)
    exact hv
  · intro hv
    exact ⟨_, hr', rfl, rfl, hv⟩

/-- A requirement without an override resolves to the value that its own text settles on. -/
theorem Follows.resolvesTo_of_none (h : Follows pom patch m') {i : Nat} {r : Requirement}
    (hr : (ofPom pom).requirements[i]? = some r)
    (hd : patch.dependency? r.package r.origin = none) (version : String) :
    m'.ResolvesTo i r version ↔
      pom.resolveSettled patch m'.toEnvironment r.origin.scope r.declared = version := by
  rw [h.resolvesTo_iff hr, hd]
  rfl

/-- A requirement with an override resolves to the text of the override, if that opens no
placeholder. -/
theorem Follows.resolvesTo_of_some (h : Follows pom patch m') {i : Nat} {r : Requirement}
    (hr : (ofPom pom).requirements[i]? = some r) {d : DependencyPatch}
    (hd : patch.dependency? r.package r.origin = some d)
    (hn : Placeholder.mentioned d.newRequire = false) : m'.ResolvesTo i r d.newRequire := by
  rw [h.resolvesTo_iff hr, hd]
  exact Interpolation.interpolate_of_not_mentioned _ hn

/-- A patch that leaves alone the version of the parent does not change the coordinates. -/
theorem Follows.beside_eq (h : Follows pom patch m')
    (hover : ∀ d ∈ patch.dependencies, d.origin ≠ .parent) :
    (environmentOf pom).beside m'.toEnvironment = environmentOf pom := by
  obtain ⟨hroot, hparent⟩ := h.coordinates hover
  rw [Environment.beside, hroot, hparent]
  rfl

/-- What a text settles on is then known from the document alone. -/
theorem Follows.resolveSettled_self (h : Follows pom patch m')
    (hover : ∀ d ∈ patch.dependencies, d.origin ≠ .parent) (scope : Scope) (text : String) :
    pom.resolveSettled patch m'.toEnvironment scope text =
      pom.resolveSettled patch (environmentOf pom) scope text := by
  have hl : pom.lookupSettled? patch m'.toEnvironment scope =
      pom.lookupSettled? patch (environmentOf pom) scope := by
    funext name
    rw [Pom.lookupSettled?, Pom.lookupSettled?, h.beside_eq hover]
    rfl
  rw [Pom.resolveSettled, hl, Pom.resolveSettled]

/-- A text that can be foreseen settles on the value that was foreseen. -/
theorem Follows.resolveSettled_eq (h : Follows pom patch m') {r : Requirement}
    (hr : pom.Foresees patch r) :
    pom.resolveSettled patch m'.toEnvironment r.origin.scope r.declared =
      (ofPom pom).resolvePatched patch r.origin.scope r.declared := by
  refine (Interpolation.interpolate_congr fun name hn => ?_).symm
  rw [h.lookupSettled? _ _ (hr.once name hn)]
  rcases hr.apart with hover | hreach
  · rw [h.beside_eq hover]
    rfl
  · have hbuiltin : ((environmentOf pom).beside m'.toEnvironment).builtin? name =
        (ofPom pom).builtin? name :=
      Environment.builtin?_beside h.groupId h.artifactId h.parentGroup
        fun hmem => hreach name hmem hn
    rw [Environment.lookupPatched?, Environment.lookupPatched?, Environment.lookup?,
      Environment.lookup?, hbuiltin]
    rfl

end Manifest

/-! ## Patches with a single change -/

namespace Pom

/-- A patch can be written into a document, where it gives a property a new value and changes
nothing else. -/
structure OnlySets (pom : Pom) (patch : Patch) (scope : Scope) (name value : String) : Prop where
  admits : pom.Admits patch
  changes : patch.changes = [(.property scope name, value)]
  spanned : ((pom.spanOf? (.property scope name)).join).isSome = true

instance (pom : Pom) (patch : Patch) (scope : Scope) (name value : String) :
    Decidable (pom.OnlySets patch scope name value) :=
  decidable_of_iff (pom.Admits patch ∧ patch.changes = [(.property scope name, value)] ∧
    ((pom.spanOf? (.property scope name)).join).isSome = true)
    ⟨fun ⟨h₁, h₂, h₃⟩ => ⟨h₁, h₂, h₃⟩, fun ⟨h₁, h₂, h₃⟩ => ⟨h₁, h₂, h₃⟩⟩

namespace OnlySets

variable {pom : Pom} {patch : Patch} {scope : Scope} {name value : String}

theorem exists_applyPatch (h : pom.OnlySets patch scope name value) {text : String}
    (hread : Pom.read text = .ok pom) : ∃ out, applyPatch text patch = .ok out := by
  obtain ⟨span, hs⟩ := Option.isSome_iff_exists.mp h.spanned
  exact MavenUpgrade.exists_applyPatch hread h.changes (Option.join_eq_some_iff.mp hs)

/-- No dependency is overridden. -/
theorem dependencies_eq_nil (h : pom.OnlySets patch scope name value) :
    patch.dependencies = [] := by
  have hc := h.changes
  rw [Patch.changes] at hc
  cases hd : patch.dependencies with
  | nil => rfl
  | cons d ds =>
    rw [hd] at hc
    cases hc

theorem dependency?_eq_none (h : pom.OnlySets patch scope name value) (package : Package)
    (origin : Origin) : patch.dependency? package origin = none := by
  rw [Patch.dependency?, h.dependencies_eq_nil]
  rfl

/-- The version of the parent stays. -/
theorem origin_ne_parent (h : pom.OnlySets patch scope name value) :
    ∀ d ∈ patch.dependencies, d.origin ≠ .parent := by
  intro d hd
  rw [h.dependencies_eq_nil] at hd
  cases hd

/-- If the property is declared once, all can be foreseen. -/
theorem foresees (h : pom.OnlySets patch scope name value)
    (honce : (pom.declarationsOf scope name).length ≤ 1) (r : Requirement) :
    pom.Foresees patch r := by
  refine ⟨fun other _ found _ hc => ?_, Or.inl h.origin_ne_parent⟩
  obtain ⟨v, hv⟩ := Option.isSome_iff_exists.mp hc
  have hm : (PatchTarget.property found other, v) ∈ patch.changes :=
    List.mem_append_right _ (List.mem_map.mpr
      ⟨_, (patch.mem_propertyChanges_iff found other v).mpr hv, rfl⟩)
  rw [h.changes] at hm
  obtain ⟨ht, -⟩ := Prod.mk.inj (List.mem_singleton.mp hm)
  obtain ⟨rfl, rfl⟩ := PatchTarget.property.inj ht
  exact honce

end OnlySets

end Pom

end MavenUpgrade

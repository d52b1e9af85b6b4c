import Mathlib
import MavenUpgrade.Proofs.Collection.First
import MavenUpgrade.Proofs.Manifest.Environment
import MavenUpgrade.Proofs.Manifest.Properties
import MavenUpgrade.Proofs.Pom.Applying

/-!
# Manifests of patched documents

The manifest of a document to which a patch has been applied (`Manifest.exists_follows`): each
requirement has the new text of its declaration, and every property has the value of its last
declaration, which is the new one where it is declared once (`Manifest.settled?_of_once`).
-/

namespace MavenUpgrade

/-! ## The values of declared properties -/

namespace Pom

/-- The declarations of a property. -/
def declarationsOf (pom : Pom) (scope : Scope) (name : String) : List PropertyDeclaration :=
  pom.properties.filter fun p => p.scope = scope ∧ p.name = name

/-- A patch can be written into a document: its texts are read as they are, and they replace plain
texts. -/
structure Admits (pom : Pom) (patch : Patch) : Prop where
  writable : ∀ change ∈ patch.changes, IsWritable change.2
  plain : pom.ReplacesPlain patch

instance (pom : Pom) (patch : Patch) : Decidable (pom.Admits patch) :=
  decidable_of_iff ((∀ change ∈ patch.changes, IsWritable change.2) ∧ pom.ReplacesPlain patch)
    ⟨fun ⟨h₁, h₂⟩ => ⟨h₁, h₂⟩, fun ⟨h₁, h₂⟩ => ⟨h₁, h₂⟩⟩

/-- The value of a property once a patch has been written: that of its last declaration, although
the first one is edited. -/
def settled? (pom : Pom) (patch : Patch) (scope : Scope) (name : String) : Option String :=
  ((pom.declarationsOf scope name).getLast?).map fun p => pom.newText patch p.span? p.value

end Pom

/-- The insertion that a declaration makes. -/
def PropertyDeclaration.insertion (p : PropertyDeclaration) : PropertySet.Insertion :=
  ⟨p.scope, p.name, p.value⟩

namespace Manifest

/-- The properties of a document are inserted in the order of their declarations. -/
theorem properties_environmentOf (pom : Pom) :
    (environmentOf pom).properties = .ofInsertions (pom.properties.map (·.insertion)) := by
  rw [PropertySet.ofInsertions, List.foldl_map]
  rfl

theorem get?_environmentOf (pom : Pom) (scope : Scope) (name : String) :
    (environmentOf pom).properties.get? scope name =
      ((pom.declarationsOf scope name).getLast?).map (·.value) := by
  rw [properties_environmentOf, (PropertySet.tells_ofInsertions _).get?,
    PropertySet.lastInsertion?, List.filter_map, List.getLast?_map, Option.map_map]
  rfl

variable {pom pom' : Pom} {patch : Patch}

/-- The properties of a patched document have the values that they settle on. -/
theorem get?_of_follows (h : pom.Follows patch pom') (scope : Scope) (name : String) :
    (environmentOf pom').properties.get? scope name = pom.settled? patch scope name := by
  have hdeclared : (pom'.declarationsOf scope name).map (·.bare) =
      (pom.declarationsOf scope name).map (pom.retoldProperty patch) := by
    have hfilter := congrArg (List.filter fun p : PropertyDeclaration =>
      decide (p.scope = scope ∧ p.name = name)) h.properties
    rw [List.filter_map, List.filter_map] at hfilter
    exact hfilter
  have hlast := congrArg List.getLast? hdeclared
  rw [List.getLast?_map, List.getLast?_map] at hlast
  have hvalue := congrArg (Option.map PropertyDeclaration.value) hlast
  rw [Option.map_map, Option.map_map] at hvalue
  rw [get?_environmentOf]
  exact hvalue

/-- A property that is declared once settles on its new value. -/
theorem settled?_of_once (h : pom.Follows patch pom') {scope : Scope} {name : String}
    (honce : (patch.property? scope name).isSome = true →
      (pom.declarationsOf scope name).length ≤ 1) :
    pom.settled? patch scope name =
      (patch.property? scope name).or ((environmentOf pom).properties.get? scope name) := by
  rw [get?_environmentOf, Pom.settled?]
  cases hc : patch.property? scope name with
  | none =>
    -- nothing of the property is edited
    rw [Option.none_or]
    refine Option.map_congr fun p hp => ?_
    obtain ⟨hmem, hkey⟩ := List.mem_filter.mp (List.mem_of_getLast? hp)
    obtain ⟨rfl, rfl⟩ := of_decide_eq_true hkey
    exact h.kept p hmem hc
  | some value =>
    obtain ⟨p, hp, hvalue⟩ := h.property scope name value hc
    have hlength := honce (by rw [hc]; rfl)
    obtain ⟨hkey, -⟩ := List.find?_eq_some_iff_append.mp hp
    have hmem : p ∈ pom.declarationsOf scope name :=
      List.mem_filter.mpr ⟨List.mem_of_find?_eq_some hp, hkey⟩
    -- the declaration that is edited is the first and the last one
    have hsingle : pom.declarationsOf scope name = [p] := by
      obtain ⟨q, hq⟩ := List.length_eq_one_iff.mp
        (Nat.le_antisymm hlength (List.length_pos_of_mem hmem))
      rw [hq] at hmem ⊢
      rw [List.mem_singleton.mp hmem]
    rw [hsingle]
    show some (pom.newText patch p.span? p.value) = _
    rw [hvalue]
    rfl

end Manifest

/-! ## The values of names -/

namespace Environment

/-- The properties of an environment beside the coordinates of another one. -/
def beside (env other : Environment) : Environment :=
  { env with root := other.root, parent? := other.parent? }

/-- The names that stand for a version without a declaration. -/
def versionNames : List String :=
  ["project.version", "version", "pom.version", "project.parent.version"]

/-- The same project, perhaps in other versions, gives other names the same values. -/
theorem builtin?_beside {env other : Environment} (hg : other.root.groupId = env.root.groupId)
    (ha : other.root.artifactId = env.root.artifactId)
    (hp : other.parent?.map (·.groupId) = env.parent?.map (·.groupId)) {name : String}
    (hn : name ∉ versionNames) : (env.beside other).builtin? name = env.builtin? name := by
  unfold builtin?
  split
  · exact absurd (by decide) hn
  · exact absurd (by decide) hn
  · exact absurd (by decide) hn
  · exact congrArg some hg
  · exact congrArg some ha
  · exact absurd (by decide) hn
  · exact hp
  · rfl

end Environment

/-- The values that a scope of a document sees once a patch has been written, beside the coordinates
of another environment. -/
def Pom.lookupSettled? (pom : Pom) (patch : Patch) (other : Environment) (scope : Scope)
    (name : String) : Option String :=
  (((Manifest.environmentOf pom).properties.locate? scope name).bind
      (pom.settled? patch · name)).or
    (((Manifest.environmentOf pom).beside other).builtin? name)

/-- The property that a name stands for in a scope is declared once, if a patch changes it. -/
def Pom.DeclaresOnce (pom : Pom) (patch : Patch) (scope : Scope) (name : String) : Prop :=
  ∀ found, (Manifest.environmentOf pom).properties.locate? scope name = some found →
    (patch.property? found name).isSome = true → (pom.declarationsOf found name).length ≤ 1

/-- The package and the place of a requirement, of which no two requirements agree. -/
def Requirement.key (r : Requirement) : Package × Origin :=
  (r.package, r.origin)

/-- A requirement once a patch has been applied, with the values of an environment. -/
def Requirement.follow (r : Requirement) (patch : Patch) (env : Environment) : Requirement :=
  let declared := ((patch.dependency? r.package r.origin).map (·.newRequire)).getD r.declared
  { r with declared, resolved := env.resolve r.origin.scope declared }

namespace Manifest

/-- What becomes of the manifest of a document when a patch is applied to it. -/
structure Follows (pom : Pom) (patch : Patch) (m' : Manifest) : Prop where
  requirements : m'.requirements =
    (ofPom pom).requirements.map (·.follow patch m'.toEnvironment)
  lookup? : ∀ scope, m'.lookup? scope = pom.lookupSettled? patch m'.toEnvironment scope
  /-- A name has the value that was foreseen, but for the coordinates, unless it stands for a
  changed property that is declared twice. -/
  lookupSettled? : ∀ scope name, pom.DeclaresOnce patch scope name →
    pom.lookupSettled? patch m'.toEnvironment scope name =
      ((environmentOf pom).beside m'.toEnvironment).lookupPatched? patch scope name
  groupId : m'.root.groupId = pom.root.groupId
  artifactId : m'.root.artifactId = pom.root.artifactId
  parentGroup : m'.parent?.map (·.groupId) = pom.parent?.map (·.groupId)
  coordinates : (∀ d ∈ patch.dependencies, d.origin ≠ .parent) →
    m'.root = pom.root ∧ m'.parent? = pom.parent?

/-- Names have the values that the properties settle on. -/
theorem lookup?_of_follows {pom pom' : Pom} {patch : Patch} (h : pom.Follows patch pom')
    (scope : Scope) :
    (environmentOf pom').lookup? scope = pom.lookupSettled? patch (environmentOf pom') scope := by
  have hlocate (name : String) : (environmentOf pom').properties.locate? scope name =
      (environmentOf pom).properties.locate? scope name := by
    have hsome (s : Scope) : ((environmentOf pom').properties.get? s name).isSome =
        ((environmentOf pom).properties.get? s name).isSome := by
      rw [get?_of_follows h, get?_environmentOf, Pom.settled?, Option.isSome_map,
        Option.isSome_map]
    rw [PropertySet.locate?, PropertySet.locate?, hsome, hsome]
  funext name
  rw [Environment.lookup?, hlocate, Pom.lookupSettled?]
  simp only [get?_of_follows h]
  rfl

/-- The value of a name is the one that was foreseen, unless the name stands for a changed property
that is declared twice. -/
theorem lookupSettled?_of_once {pom pom' : Pom} {patch : Patch} (h : pom.Follows patch pom')
    (other : Environment) {scope : Scope} {name : String}
    (honce : pom.DeclaresOnce patch scope name) :
    pom.lookupSettled? patch other scope name =
      ((environmentOf pom).beside other).lookupPatched? patch scope name := by
  rw [Pom.lookupSettled?, Environment.lookupPatched?]
  show _ = (((environmentOf pom).properties.locate? scope name).bind _).or
    ((((environmentOf pom).properties.locate? scope name).bind fun found =>
      (environmentOf pom).properties.get? found name).or _)
  cases hl : (environmentOf pom).properties.locate? scope name with
  | none => rfl
  | some found =>
    rw [Option.bind_some, Option.bind_some, Option.bind_some,
      settled?_of_once h (honce found hl), Option.or_assoc]

/-! ## Requirements -/

theorem nodup_keys (pom : Pom) : ((ofPom pom).requirements.map (·.key)).Nodup := by
  have h := nodup_map_distinctBy DependencyDeclaration.key pom.dependencies
  show (((distinctBy DependencyDeclaration.key pom.dependencies).map
    (requirementOf (environmentOf pom))).map (·.key)).Nodup
  rw [List.map_map]
  exact h

/-- Each requirement has the new text of its declaration. -/
theorem requirements_of_follows {pom pom' : Pom} {patch : Patch} (h : pom.Follows patch pom') :
    (ofPom pom').requirements =
      (ofPom pom).requirements.map (·.follow patch (environmentOf pom')) := by
  -- the first declarations are the same ones, since no key is changed
  have hfirst : (distinctBy DependencyDeclaration.key pom'.dependencies).map (·.said) =
      (distinctBy DependencyDeclaration.key pom.dependencies).map (pom.retold patch) := by
    have h₁ := distinctBy_map DependencyDeclaration.key DependencyDeclaration.said
      pom'.dependencies
    have h₂ := distinctBy_map DependencyDeclaration.key (pom.retold patch) pom.dependencies
    rw [h.dependencies] at h₁
    exact h₁.symm.trans h₂
  have hreq : (ofPom pom').requirements =
      ((distinctBy DependencyDeclaration.key pom'.dependencies).map (·.said)).map
        (requirementOf (environmentOf pom')) := by
    rw [List.map_map]
    rfl
  show _ = ((distinctBy DependencyDeclaration.key pom.dependencies).map
    (requirementOf (environmentOf pom))).map _
  rw [hreq, hfirst, List.map_map, List.map_map]
  refine List.map_congr_left fun d hd => ?_
  have hfound := find?_of_mem_distinctBy hd
  have hkey : (fun e : DependencyDeclaration => decide (e.key = d.key)) =
      fun e => decide (e.package = d.package ∧ e.origin = d.origin) := by
    funext e
    exact decide_eq_decide.mpr Prod.mk_inj
  rw [hkey] at hfound
  show Requirement.mk d.package (pom.newText patch d.span? d.declared)
    ((environmentOf pom').resolve d.origin.scope (pom.newText patch d.span? d.declared)) d.origin
    d.tag?.toList = _
  rw [h.dependency d hfound]
  rfl

/-- **The manifest of a patched document is what the manifest of the document becomes.** -/
theorem exists_follows {text out : String} {pom : Pom} {patch : Patch}
    (hread : Pom.read text = .ok pom) (hadmits : pom.Admits patch)
    (happly : applyPatch text patch = .ok out) :
    ∃ m', read out = .ok m' ∧ Follows pom patch m' := by
  obtain ⟨pom', hread', h⟩ := Pom.exists_follows hread hadmits.writable hadmits.plain happly
  refine ⟨ofPom pom', ?_, requirements_of_follows h, lookup?_of_follows h,
    fun _ _ honce => lookupSettled?_of_once h _ honce, h.groupId, h.artifactId, h.parentGroup,
    h.coordinates⟩
  rw [read, hread']
  rfl

end Manifest

end MavenUpgrade

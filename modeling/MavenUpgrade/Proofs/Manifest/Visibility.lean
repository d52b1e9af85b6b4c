import Mathlib
import MavenUpgrade.Proofs.Manifest.Applying

/-!
# What bears on a value

A text of a scope takes its values from the properties of the scope, from those of the project, and
from the coordinates. Foreseeing a patch is the same as giving the declared properties their new
values first (`Manifest.resolvePatched_eq_resolve_revalued`), and whatever other profiles declare
or a patch sets in them has no effect (`Manifest.resolve_isolated`).
-/

namespace MavenUpgrade

/-! ## Other values under the same keys -/

namespace OrderedMap

variable {α β γ : Type} [DecidableEq α]

/-- The map with other values under the same keys. -/
def mapValues (f : α → β → γ) (m : OrderedMap α β) : OrderedMap α γ where
  entries := m.entries.map fun e => (e.1, f e.1 e.2)
  distinctKeys := by
    rw [List.map_map]
    exact m.distinctKeys

theorem get?_mapValues (f : α → β → γ) (m : OrderedMap α β) (key : α) :
    (m.mapValues f).get? key = (m.get? key).map (f key) := by
  show (m.entries.map _).lookup key = (m.entries.lookup key).map (f key)
  induction m.entries with
  | nil => rfl
  | cons e rest ih =>
    obtain ⟨k, v⟩ := e
    rw [List.map_cons, lookup_cons_entry, lookup_cons_entry, ih]
    by_cases hk : key = k
    · rw [if_pos hk, if_pos hk, Option.map_some, hk]
    · rw [if_neg hk, if_neg hk]

end OrderedMap

namespace PropertySet

/-- The set in which each property has the value that is given for it, if one is. -/
def revalue (s : PropertySet) (value? : Scope → String → Option String) : PropertySet :=
  ⟨s.scopes.mapValues fun scope values =>
    values.mapValues fun name value => (value? scope name).getD value⟩

variable (s : PropertySet) (value? : Scope → String → Option String)

/-- A property has the value that is given for it, if it is declared. -/
theorem get?_revalue (scope : Scope) (name : String) :
    (s.revalue value?).get? scope name =
      (s.get? scope name).map fun value => (value? scope name).getD value := by
  rw [get?, revalue, OrderedMap.get?_mapValues, get?]
  cases s.scopes.get? scope with
  | none => rfl
  | some values => exact OrderedMap.get?_mapValues _ values name

/-- The scopes see the same properties as before. -/
theorem locate?_revalue (scope : Scope) (name : String) :
    (s.revalue value?).locate? scope name = s.locate? scope name := by
  rw [locate?, get?_revalue, get?_revalue, Option.isSome_map, Option.isSome_map, locate?]

/-- The properties are listed in the same order. -/
theorem toList_revalue :
    (s.revalue value?).toList =
      s.toList.map fun c => (c.1, c.2.1, (value? c.1 c.2.1).getD c.2.2) := by
  show (s.scopes.entries.map _).flatMap _ = (s.scopes.entries.flatMap _).map _
  rw [List.flatMap_map, List.map_flatMap]
  refine List.flatMap_congr fun e _ => ?_
  show (e.2.entries.map _).map _ = (e.2.entries.map _).map _
  rw [List.map_map, List.map_map]
  rfl

end PropertySet

/-! ## Values after the fact -/

namespace Environment

/-- The environment in which the declared properties have the values of a patch, where it gives
one. -/
def revalued (env : Environment) (patch : Patch) : Environment :=
  { env with properties := env.properties.revalue patch.property? }

variable (env : Environment) (patch : Patch)

/-- The value that a name has once a patch is applied is the one that it has when the declared
properties have their new values. -/
theorem lookupPatched?_eq_lookup?_revalued (scope : Scope) :
    env.lookupPatched? patch scope = (env.revalued patch).lookup? scope := by
  funext name
  rw [lookupPatched?, lookup?, lookup?]
  show _ = (((env.properties.revalue patch.property?).locate? scope name).bind fun found =>
    (env.properties.revalue patch.property?).get? found name).or (env.builtin? name)
  rw [PropertySet.locate?_revalue]
  cases hl : env.properties.locate? scope name with
  | none => rfl
  | some found =>
    -- a property that is seen is declared, so it takes the value of the patch
    obtain ⟨value, hv⟩ := Option.isSome_iff_exists.mp (isSome_get?_of_locate? hl)
    rw [Option.bind_some, Option.bind_some, Option.bind_some, PropertySet.get?_revalue, hv]
    cases patch.property? found name <;> rfl

theorem refs_revalued (scope : Scope) (text : String) :
    (env.revalued patch).refs scope text = env.refs scope text := by
  refine List.filterMap_congr fun name _ => ?_
  rw [revalued, PropertySet.locate?_revalue]

end Environment

namespace Manifest

/-- The manifest in which the declared properties have the values of a patch, where it gives one. -/
def revalued (m : Manifest) (patch : Patch) : Manifest :=
  { m with toEnvironment := m.toEnvironment.revalued patch }

theorem requirementRefs_revalued (m : Manifest) (patch : Patch) :
    (m.revalued patch).requirementRefs = m.requirementRefs := by
  funext r
  exact m.refs_revalued patch r.origin.scope r.declared

/-- **A text has under a patch the value that it has after the fact**, in the manifest whose declared
properties have been given the values of the patch. Nothing else differs in this manifest: its
properties are listed in the same order, and they have the same members. -/
theorem resolvePatched_eq_resolve_revalued (m : Manifest) (patch : Patch) :
    (∀ scope text, m.resolvePatched patch scope text = (m.revalued patch).resolve scope text) ∧
      (m.revalued patch).properties.toList = (m.properties.toList.map fun c =>
        (c.1, c.2.1, (patch.property? c.1 c.2.1).getD c.2.2)) ∧
      (m.revalued patch).root = m.root ∧ (m.revalued patch).parent? = m.parent? ∧
      (m.revalued patch).requirements = m.requirements ∧
      (m.revalued patch).refsAt = m.refsAt ∧ (m.revalued patch).members = m.members ∧
      (m.revalued patch).usedProperties = m.usedProperties := by
  have hrefsAt : (m.revalued patch).refsAt = m.refsAt := by
    funext i
    rw [refsAt, requirementRefs_revalued]
    rfl
  have hmembers : (m.revalued patch).members = m.members := by
    funext p
    rw [members, hrefsAt]
    rfl
  have hused : (m.revalued patch).usedProperties = m.usedProperties := by
    rw [usedProperties, requirementRefs_revalued]
    rfl
  refine ⟨fun scope text => ?_, PropertySet.toList_revalue _ _, rfl, rfl, rfl, hrefsAt, hmembers,
    hused⟩
  rw [Environment.resolvePatched, Environment.lookupPatched?_eq_lookup?_revalued]
  rfl

end Manifest

/-! ## Other profiles -/

/-- A scope sees its own properties and those of the project. -/
def Scope.Sees (scope place : Scope) : Prop :=
  place = .root ∨ place = scope

instance (scope place : Scope) : Decidable (scope.Sees place) :=
  inferInstanceAs (Decidable (_ ∨ _))

namespace Environment

/-- Two environments that a scope cannot tell apart: they have the same coordinates, and the same
values for the properties of the scope and of the project. -/
structure AgreesIn (env : Environment) (scope : Scope) (other : Environment) : Prop where
  root : env.root = other.root
  parent? : env.parent? = other.parent?
  get? : ∀ place, scope.Sees place → ∀ name,
    env.properties.get? place name = other.properties.get? place name

end Environment

/-- Two patches that a scope cannot tell apart: they say the same of the properties of the scope and
of the project. -/
def Patch.AgreesIn (patch : Patch) (scope : Scope) (other : Patch) : Prop :=
  ∀ place, scope.Sees place → ∀ name, patch.property? place name = other.property? place name

namespace Environment

variable {env other : Environment} {scope : Scope}

theorem AgreesIn.symm (h : env.AgreesIn scope other) : other.AgreesIn scope env where
  root := h.root.symm
  parent? := h.parent?.symm
  get? place hsees name := (h.get? place hsees name).symm

/-- A scope sees the same values in environments that it cannot tell apart. -/
theorem AgreesIn.lookup?_eq (h : env.AgreesIn scope other) :
    env.lookup? scope = other.lookup? scope := by
  have hbuiltin : env.builtin? = other.builtin? := by
    funext name
    unfold builtin?
    rw [h.root, h.parent?]
  funext name
  rw [lookup?_eq_visible?, lookup?_eq_visible?, visible?, visible?, hbuiltin,
    h.get? scope (Or.inr rfl), h.get? .root (Or.inl rfl)]

/-- Patches that a scope cannot tell apart leave environments that it cannot tell apart. -/
theorem AgreesIn.revalued (h : env.AgreesIn scope other) {patch patch' : Patch}
    (hpatch : patch.AgreesIn scope patch') :
    (env.revalued patch).AgreesIn scope (other.revalued patch') where
  root := h.root
  parent? := h.parent?
  get? place hsees name := by
    show (env.properties.revalue _).get? place name = (other.properties.revalue _).get? place name
    rw [PropertySet.get?_revalue, PropertySet.get?_revalue, h.get? place hsees,
      hpatch place hsees]

/-- A scope foresees the same values under patches that it cannot tell apart. -/
theorem AgreesIn.lookupPatched?_eq (h : env.AgreesIn scope other) {patch patch' : Patch}
    (hpatch : patch.AgreesIn scope patch') :
    env.lookupPatched? patch scope = other.lookupPatched? patch' scope := by
  rw [lookupPatched?_eq_lookup?_revalued, lookupPatched?_eq_lookup?_revalued]
  exact (h.revalued hpatch).lookup?_eq

/-- A scope sees the same value of a text in environments that it cannot tell apart. -/
theorem AgreesIn.resolve_eq (h : env.AgreesIn scope other) (text : String) :
    env.resolve scope text = other.resolve scope text := by
  rw [resolve, h.lookup?_eq, resolve]

/-- A scope foresees the same value of a text under patches that it cannot tell apart. -/
theorem AgreesIn.resolvePatched_eq (h : env.AgreesIn scope other) {patch patch' : Patch}
    (hpatch : patch.AgreesIn scope patch') (text : String) :
    env.resolvePatched patch scope text = other.resolvePatched patch' scope text := by
  rw [resolvePatched, h.lookupPatched?_eq hpatch, resolvePatched]

/-- The environment in which further properties are declared. -/
def declaring (env : Environment) (further : List (Scope × String × String)) : Environment :=
  { env with properties := further.foldl (fun s c => s.insert c.1 c.2.1 c.2.2) env.properties }

/-- A scope does not notice what is declared in other profiles. -/
theorem agreesIn_declaring (env : Environment) {further : List (Scope × String × String)}
    (h : ∀ c ∈ further, ¬ scope.Sees c.1) : (env.declaring further).AgreesIn scope env where
  root := rfl
  parent? := rfl
  get? place hsees name := by
    show (further.foldl (fun s c => s.insert c.1 c.2.1 c.2.2) env.properties).get? place name = _
    generalize env.properties = s
    induction further generalizing s with
    | nil => rfl
    | cons c further ih =>
      obtain ⟨hc, hfurther⟩ := List.forall_mem_cons.mp h
      rw [List.foldl_cons, ih hfurther, PropertySet.get?_insert, if_neg]
      rintro ⟨rfl, -⟩
      exact hc hsees

end Environment

namespace Patch

/-- The patch that sets further properties. -/
def setting (patch : Patch) (further : List (Scope × String × String)) : Patch :=
  further.foldl (fun p c => p.setProperty c.1 c.2.1 c.2.2) patch

/-- A scope does not notice what a patch sets in other profiles. -/
theorem agreesIn_setting (patch : Patch) {scope : Scope} {further : List (Scope × String × String)}
    (h : ∀ c ∈ further, ¬ scope.Sees c.1) : (patch.setting further).AgreesIn scope patch := by
  intro place hsees name
  rw [setting]
  induction further generalizing patch with
  | nil => rfl
  | cons c further ih =>
    obtain ⟨hc, hfurther⟩ := List.forall_mem_cons.mp h
    rw [List.foldl_cons, ih _ hfurther, property?_setProperty, if_neg]
    rintro ⟨rfl, -⟩
    exact hc hsees

end Patch

namespace Manifest

/-- **A scope is isolated from other profiles.** In manifests with the same coordinates that have the
same properties in the project and in the scope, under patches that say the same of these, every
name has the same value, at whatever depth it is met, and so every text has. Nothing that is
declared in other profiles, or set there by a patch, changes a value. -/
theorem resolve_isolated {m other : Manifest} {scope : Scope} {patch patch' : Patch}
    (h : m.AgreesIn scope other.toEnvironment) (hpatch : patch.AgreesIn scope patch') :
    m.lookup? scope = other.lookup? scope ∧
      m.lookupPatched? patch scope = other.lookupPatched? patch' scope ∧
      (∀ text, m.resolve scope text = other.resolve scope text ∧
        m.resolvePatched patch scope text = other.resolvePatched patch' scope text) ∧
      ∀ declared set : List (Scope × String × String),
        (∀ c ∈ declared ++ set, ¬ scope.Sees c.1) → ∀ text,
          (m.declaring declared).resolve scope text = m.resolve scope text ∧
            (m.declaring declared).resolvePatched (patch.setting set) scope text =
              m.resolvePatched patch scope text := by
  refine ⟨h.lookup?_eq, h.lookupPatched?_eq hpatch,
    fun text => ⟨h.resolve_eq text, h.resolvePatched_eq hpatch text⟩,
    fun declared set hothers text => ?_⟩
  have hdeclared : (m.declaring declared).AgreesIn scope m.toEnvironment :=
    m.agreesIn_declaring fun c hc => hothers c (List.mem_append_left set hc)
  have hset : (patch.setting set).AgreesIn scope patch :=
    patch.agreesIn_setting fun c hc => hothers c (List.mem_append_right declared hc)
  exact ⟨hdeclared.resolve_eq text, hdeclared.resolvePatched_eq hset text⟩

/-- A project whose property `alias` stands for `v`, which the profile `p` declares anew. -/
def shadowing : Manifest where
  root := ⟨"g", "a", "1"⟩
  parent? := none
  properties := ((PropertySet.empty.insert .root "v" "1.0").insert .root "alias" "$\x7bv\x7d").insert
    (.profile "p") "v" "2.0"
  requirements := []

/-- The same project, with a profile `q` that declares both properties. -/
def shadowingTwice : Manifest where
  toEnvironment :=
    shadowing.declaring [(.profile "q", "v", "9.0"), (.profile "q", "alias", "8.0")]
  requirements := shadowing.requirements

/-- What the profile `q` declares and what a patch sets there is not seen from the profile `p`. -/
theorem resolve_isolated_shadowing :
    shadowing.AgreesIn (.profile "p") shadowingTwice.toEnvironment ∧
      (Patch.empty.setProperty (.profile "p") "v" "3.0").AgreesIn (.profile "p")
        ((Patch.empty.setProperty (.profile "p") "v" "3.0").setting
          [(.profile "q", "alias", "7.0")]) ∧
      shadowing.resolve (.profile "p") "$\x7balias\x7d" = "2.0" ∧
      shadowingTwice.resolve (.profile "q") "$\x7balias\x7d" = "8.0" ∧
      shadowingTwice.resolve (.profile "p") "$\x7balias\x7d" = "2.0" ∧
      shadowingTwice.resolvePatched
        ((Patch.empty.setProperty (.profile "p") "v" "3.0").setting
          [(.profile "q", "alias", "7.0")]) (.profile "p") "$\x7balias\x7d" = "3.0" := by
  have h : shadowing.AgreesIn (.profile "p") shadowingTwice.toEnvironment :=
    (shadowing.agreesIn_declaring (by decide)).symm
  have hpatch : (Patch.empty.setProperty (.profile "p") "v" "3.0").AgreesIn (.profile "p")
      ((Patch.empty.setProperty (.profile "p") "v" "3.0").setting
        [(.profile "q", "alias", "7.0")]) :=
    fun place hsees name => (Patch.agreesIn_setting _ (by decide) place hsees name).symm
  obtain ⟨hresolve, hpatched⟩ := (resolve_isolated h hpatch).2.2.1 "$\x7balias\x7d"
  refine ⟨h, hpatch, by decide +kernel, by decide +kernel, ?_, ?_⟩
  · rw [← hresolve]
    decide +kernel
  · rw [← hpatched]
    decide +kernel

end Manifest

end MavenUpgrade

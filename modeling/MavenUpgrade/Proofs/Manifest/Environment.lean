import Mathlib
import MavenUpgrade.Manifest.Basic
import MavenUpgrade.Proofs.Patch
import MavenUpgrade.Proofs.Template.Expansion

/-!
# The values that a scope sees

Which declared properties a text refers to, and what becomes of its value under a patch. A patch
that says nothing of any property leaves the value of every text alone.

The value of a text is its expansion in the scope, unless a chain of references from it ends at a
name without a value, comes back to a name or has more than 32 names; then the opening of a
placeholder is left in it (`resolve_eq_expansion`).
-/

namespace MavenUpgrade.Environment

/-- A located property is declared. -/
theorem isSome_get?_of_locate? {s : PropertySet} {scope found : Scope} {name : String}
    (h : s.locate? scope name = some found) : (s.get? found name).isSome = true := by
  rw [PropertySet.locate?] at h
  split at h
  · next hs =>
    obtain rfl := Option.some.inj h
    exact hs
  · split at h
    · next hr =>
      obtain rfl := Option.some.inj h
      exact hr
    · cases h

/-- A text refers to the properties that its names stand for in the scope. -/
theorem mem_refs_iff (env : Environment) (scope : Scope) (text : String) (p : PropertyRef) :
    p ∈ env.refs scope text ↔
      p.name ∈ Placeholder.names text ∧ env.properties.locate? scope p.name = some p.scope := by
  rw [refs, List.mem_filterMap]
  constructor
  · rintro ⟨name, hn, hm⟩
    obtain ⟨found, hl, rfl⟩ := Option.map_eq_some_iff.mp hm
    exact ⟨hn, hl⟩
  · rintro ⟨hn, hl⟩
    exact ⟨p.name, hn, by rw [hl, Option.map_some]⟩

/-- A text refers to no property twice. -/
theorem nodup_refs (env : Environment) (scope : Scope) (text : String) :
    (env.refs scope text).Nodup := by
  refine (nodup_distinct _).filterMap ?_
  intro name name' p hp hp'
  obtain ⟨_, -, rfl⟩ := Option.map_eq_some_iff.mp hp
  obtain ⟨_, -, he⟩ := Option.map_eq_some_iff.mp hp'
  exact (PropertyRef.mk.inj he).2.symm

/-- A property that a text refers to has a value. -/
theorem isSome_propertyValue?_of_mem_refs {env : Environment} {scope : Scope} {text : String}
    {p : PropertyRef} (h : p ∈ env.refs scope text) : (env.propertyValue? p).isSome = true := by
  rw [propertyValue?, Option.isSome_map]
  exact isSome_get?_of_locate? ((env.mem_refs_iff scope text p).mp h).2

/-- The value of a property is that of its raw value in its own scope. -/
theorem resolve_rawValue {env : Environment} {p : PropertyRef} {value : String}
    (h : env.propertyValue? p = some value) : env.resolve p.scope (env.rawValue p) = value := by
  rw [propertyValue?] at h
  obtain ⟨raw, hr, hv⟩ := Option.map_eq_some_iff.mp h
  rw [rawValue, hr]
  exact hv

/-- A patch that says nothing of any property leaves the value of every text alone. -/
theorem resolvePatched_of_silent (env : Environment) {patch : Patch}
    (h : ∀ scope name, patch.property? scope name = none) (scope : Scope) (text : String) :
    env.resolvePatched patch scope text = env.resolve scope text := by
  have hl : env.lookupPatched? patch scope = env.lookup? scope := by
    funext name
    rw [lookupPatched?]
    cases env.properties.locate? scope name with
    | none => rfl
    | some found =>
      show (patch.property? found name).or _ = _
      rw [h, Option.none_or]
  rw [resolvePatched, hl, resolve]

/-- The value of a text is made of its literal pieces and the values of its placeholders. -/
theorem toList_resolve (env : Environment) (scope : Scope) (text : String) :
    (env.resolve scope text).toList =
      Template.filling (fun name => some (env.resolve scope (Placeholder.text name)))
        (Template.ofText text).segments :=
  Interpolation.toList_interpolate _ text

/-! ## Expansions -/

/-- The value of a name as seen from a scope: that of the property of the scope, or else of the
project, or else what every project has. -/
def visible? (env : Environment) (scope : Scope) (name : String) : Option String :=
  ((env.properties.get? scope name).or (env.properties.get? .root name)).or (env.builtin? name)

theorem lookup?_eq_visible? (env : Environment) (scope : Scope) :
    env.lookup? scope = env.visible? scope := by
  funext name
  rw [lookup?, PropertySet.locate?, visible?]
  cases hlocal : env.properties.get? scope name with
  | some value => simp [hlocal]
  | none =>
    cases hroot : env.properties.get? .root name with
    | some value => simp [hroot]
    | none => simp

/-- A text is the expansion of another one in a scope. -/
def IsExpansion (env : Environment) (scope : Scope) (text out : String) : Prop :=
  Interpolation.Expands (env.visible? scope) text.toList out.toList

/-- A grounded text has its value as its only expansion. -/
theorem isExpansion_iff_of_isGrounded {env : Environment} {scope : Scope} {text : String}
    (h : Interpolation.IsGrounded (env.visible? scope) 32 text) (out : String) :
    env.IsExpansion scope text out ↔ out = env.resolve scope text := by
  have hvalue : env.IsExpansion scope text (env.resolve scope text) := by
    rw [resolve, lookup?_eq_visible?]
    exact Interpolation.expands_of_isGrounded h fun _ _ _ _ => List.not_mem_nil
  constructor
  · intro hout
    exact String.toList_inj.mp (hout.unique hvalue)
  · rintro rfl
    exact hvalue

/-- **The value of a text is its expansion**, wherever no opening of a placeholder is left in it,
and wherever the text is grounded. Where it is not, an opening is left. -/
theorem resolve_eq_expansion (env : Environment) (scope : Scope) (text : String) :
    (Placeholder.mentioned (env.resolve scope text) = false →
        ∀ out, env.IsExpansion scope text out ↔ out = env.resolve scope text) ∧
      (Interpolation.IsGrounded (env.visible? scope) 32 text →
        ∀ out, env.IsExpansion scope text out ↔ out = env.resolve scope text) ∧
      (¬ Interpolation.IsGrounded (env.visible? scope) 32 text →
        Placeholder.mentioned (env.resolve scope text) = true) := by
  have hfree (h : Placeholder.mentioned (env.resolve scope text) = false) :
      Interpolation.IsGrounded (env.visible? scope) 32 text := by
    rw [resolve, lookup?_eq_visible?] at h
    exact Interpolation.isGrounded_of_expand h
  refine ⟨fun h => isExpansion_iff_of_isGrounded (hfree h), isExpansion_iff_of_isGrounded,
    fun h => ?_⟩
  rw [← Bool.not_eq_false]
  exact fun hmentioned => h (hfree hmentioned)

/-- A project in which two properties refer to each other, and one twice to the next. -/
def entangled : Environment where
  root := ⟨"g", "a", "1.0"⟩
  parent? := none
  properties := (((PropertySet.empty.insert .root "twice" "$\x7bonce\x7d-$\x7bonce\x7d").insert
    .root "once" "$\x7bproject.version\x7d").insert .root "ping" "$\x7bpong\x7d").insert
    .root "pong" "$\x7bping\x7d"

/-- Values that a text reaches on several ways are filled in each time, and names that lead back to
themselves are left. -/
theorem resolve_eq_expansion_entangled :
    Interpolation.IsGrounded (entangled.visible? .root) 32 "$\x7btwice\x7d" ∧
      entangled.IsExpansion .root "$\x7btwice\x7d" "1.0-1.0" ∧
      ¬ Interpolation.IsGrounded (entangled.visible? .root) 32 "$\x7bping\x7d" ∧
      Placeholder.mentioned (entangled.resolve .root "$\x7bping\x7d") = true := by
  have hvalue : entangled.resolve .root "$\x7btwice\x7d" = "1.0-1.0" := by decide +kernel
  obtain ⟨-, hexpansion, hleft⟩ := resolve_eq_expansion entangled .root "$\x7btwice\x7d"
  have hgrounded : Interpolation.IsGrounded (entangled.visible? .root) 32 "$\x7btwice\x7d" := by
    by_contra hnot
    have hmentioned := hleft hnot
    rw [hvalue] at hmentioned
    cases hmentioned
  have hping : entangled.visible? .root "ping" = some "$\x7bpong\x7d" := by decide +kernel
  have hpong : entangled.visible? .root "pong" = some "$\x7bping\x7d" := by decide +kernel
  have hcycle : Interpolation.IsChain (entangled.visible? .root) "$\x7bping\x7d"
      ["ping", "pong", "ping"] :=
    .cons (by decide +kernel) hping (.cons (by decide +kernel) hpong (.single (by decide +kernel)))
  have hnot : ¬ Interpolation.IsGrounded (entangled.visible? .root) 32 "$\x7bping\x7d" :=
    fun h => absurd (h.acyclic _ hcycle) (by decide)
  exact ⟨hgrounded, (hexpansion hgrounded "1.0-1.0").mpr hvalue.symm, hnot,
    (resolve_eq_expansion entangled .root "$\x7bping\x7d").2.2 hnot⟩

end MavenUpgrade.Environment

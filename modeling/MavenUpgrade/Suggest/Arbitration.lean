import MavenUpgrade.Suggest.Judgement
import MavenUpgrade.Suggest.Vote

/-!
# Arbitration

One patch for all requirements of a manifest. The members of a property choose its value together.
Properties with a literal value are changed first; one that is written through others is changed
only where their new values do not make it what it should be. A requirement that does not get its
version from the changed properties has its own version text replaced: to upgrade it, or to keep
it where it is while a property moves.
-/

namespace MavenUpgrade.Manifest

/-- The judgements on the requirements of a manifest, in their order. -/
abbrev Judgements := List Judgement

/--
The template of a requirement in which only declared properties are open; one that refers to no
declared property has none.
-/
def memberTemplate? (m : Manifest) (r : Requirement) : Option Template :=
  let refs := m.requirementRefs r
  if refs.isEmpty then none
  else
    let template := Template.ofText r.declared
    let fixed := template.placeholders.filter fun name => refs.all (·.name ≠ name)
    some (fixed.foldl (fun t name =>
      t.substitute name (m.resolve r.origin.scope (Placeholder.text name))) template)

/-- The member of a property that a requirement with a judgement makes. -/
def voter? (m : Manifest) (r : Requirement) (j : Judgement) : Option Voter := do
  let template ← m.memberTemplate? r
  let desired ← j.desired?
  return ⟨template, desired⟩

/-- The members of a property that have a say. -/
def voters (m : Manifest) (js : Judgements) (p : PropertyRef) : List Voter :=
  (m.requirements.zip js).filterMap fun (r, j) =>
    if p ∈ m.requirementRefs r then m.voter? r j else none

/-- The value that the members of a property choose, if it is a new one. -/
def newValue? (m : Manifest) (js : Judgements) (p : PropertyRef) : Option String :=
  (m.propertyValue? p).bind fun current =>
    (Voter.chooseValue? (m.voters js p) p.name).filter (· ≠ current)

/-- The properties whose members choose a new value, with it. -/
def propertyVotes (m : Manifest) (js : Judgements) : List (PropertyRef × String) :=
  m.usedProperties.filterMap fun p => (m.newValue? js p).map (p, ·)

/-- Whether a property is written through others. -/
def isDerived (m : Manifest) (p : PropertyRef) : Bool :=
  Placeholder.mentioned (m.rawValue p)

/--
Sets the new value of a property, unless the property is written through others whose new values
give it this value anyway.
-/
def applyVote (m : Manifest) (patch : Patch) (vote : PropertyRef × String) : Patch :=
  let (p, value) := vote
  if m.isDerived p && m.resolvePatched patch p.scope (m.rawValue p) = value then patch
  else patch.setProperty p.scope p.name value

/-- The changes of properties that the votes lead to. -/
def propertyPatch (m : Manifest) (js : Judgements) : Patch :=
  let votes := m.propertyVotes js
  let literal := votes.filter fun vote => !m.isDerived vote.1
  let derived := votes.filter fun vote => m.isDerived vote.1
  (literal ++ derived).foldl m.applyVote .empty

/--
The first property changed by a patch among those that a text leads to: the properties of `queue`
in turn, then those that their values name. `seen` holds the properties met so far; since each of
them is declared, no more than `fuel` can be met.
-/
def firstChanged? (m : Manifest) (patch : Patch) (scope : Scope) :
    (fuel : Nat) → (seen queue : List PropertyRef) → Option PropertyRef
  | 0, _, _ => none
  | _, _, [] => none
  | fuel + 1, seen, p :: queue =>
    if (patch.property? p.scope p.name).isSome then some p
    else
      let next := (m.refs scope (m.rawValue p)).filter (· ∉ seen)
      m.firstChanged? patch scope fuel (seen ++ next) (queue ++ next)

/-- The first property changed by a patch on the way from a requirement to its version. -/
def changedRef? (m : Manifest) (patch : Patch) (r : Requirement) : Option PropertyRef :=
  let refs := m.requirementRefs r
  m.firstChanged? patch r.origin.scope (refs.length + m.properties.size) refs refs

/-- Whether the changed properties give a requirement the version text that it should have. -/
def followsProperties (m : Manifest) (patch : Patch) (r : Requirement) (desired : String) : Bool :=
  !(m.requirementRefs r).isEmpty &&
    m.resolvePatched patch r.origin.scope r.declared = desired

/-- The outcome of a requirement under the changed properties. -/
def outcome (m : Manifest) (patch : Patch) (r : Requirement) (j : Judgement) : Outcome :=
  match j.desired?, j.skip? with
  | none, skip? => .skip r (skip?.getD .noVersionsAvailable)
  | some desired, some reason =>
    if m.followsProperties patch r desired then .skip r reason
    else if desired = r.resolved ∧ (m.requirementRefs r).isEmpty = false then
      .update r desired .pinned
    else .skip r reason
  | some desired, none =>
    if m.followsProperties patch r desired then
      match m.changedRef? patch r with
      | some p => .update r desired (.property p.scope p.name)
      | none => .update r desired .direct
    else .update r desired .direct

/-- The replacement of a requirement's own version text that an outcome asks for. -/
def overrideOf? : Outcome → Option DependencyPatch
  | .update _ _ (.property _ _) => none
  | .update r version _ => some ⟨r.package, r.origin, version⟩
  | .skip _ _ => none

/-- The outcomes of the requirements under the judgements on them. -/
def outcomes (m : Manifest) (js : Judgements) : List Outcome :=
  let patch := m.propertyPatch js
  (m.requirements.zip js).map fun (r, j) => m.outcome patch r j

/-- The patch that the judgements on the requirements lead to. -/
def arbitrate (m : Manifest) (js : Judgements) : Patch :=
  { m.propertyPatch js with dependencies := (m.outcomes js).filterMap overrideOf? }

end MavenUpgrade.Manifest

namespace MavenUpgrade

/-- What is suggested for a manifest. -/
structure Suggestion where
  patch : Patch
  /-- The outcomes of the requirements in document order. -/
  results : List Outcome
  deriving DecidableEq

/-- The suggestion for a manifest, given what the lookups of its packages came to. -/
def SuggestOptions.suggest (o : SuggestOptions) (m : Manifest)
    (lookup? : Package → Option Lookup) : Suggestion :=
  let js := m.requirements.map fun r => o.judge r (lookup? r.package)
  ⟨m.arbitrate js, m.outcomes js⟩

end MavenUpgrade

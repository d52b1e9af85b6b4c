import MavenUpgrade.Lookup.Basic
import MavenUpgrade.Manifest.Basic
import MavenUpgrade.Outcome
import MavenUpgrade.Suggest.Choice
import MavenUpgrade.Suggest.Options

/-!
# Judging requirements

What each requirement should come to by itself, before the properties that it shares with others
are considered.
-/

namespace MavenUpgrade

/-- What a requirement should come to. -/
structure Judgement where
  /-- The version text that it should end up with; unknown where its own text is not resolved. -/
  desired? : Option String
  /-- Why no upgrade is proposed. -/
  skip? : Option SkipReason
  deriving DecidableEq, Repr

namespace Judgement

/-- A requirement gets a new version text. -/
def upgrade (version : String) : Judgement :=
  ⟨some version, none⟩

/-- A requirement keeps its version text. -/
def keep (r : Requirement) (reason : SkipReason) : Judgement :=
  ⟨some r.resolved, some reason⟩

end Judgement

namespace SuggestOptions

/-- Why a requirement is skipped before its package is looked up. -/
def skipsEarly? (o : SuggestOptions) (r : Requirement) : Option SkipReason :=
  if o.isExcluded r.name then some .excluded
  else if o.ignoreNonProduction && r.isNonProduction then some .nonProduction
  else if r.isUnresolved then
    some (.unresolvedProperty ((Placeholder.names r.resolved).headD ""))
  else none

/-- The packages to look up, each where it is first needed. -/
def packagesToFetch (o : SuggestOptions) (m : Manifest) : List Package :=
  distinct ((m.requirements.filter fun r => (o.skipsEarly? r).isNone).map (·.package))

/-- The versions that count for a requirement with the given specifier. -/
def eligible (o : SuggestOptions) (current : Specifier) (versions : List String) : List String :=
  if o.stableOnly && !Version.isPrerelease current.text then
    versions.filter fun v => !Version.isPrerelease v
  else versions

/-- The judgement on a requirement when the versions of its package are known. -/
def judgeFound (o : SuggestOptions) (r : Requirement) (current : Specifier)
    (versions : List String) : Judgement :=
  match current.suggest? (o.eligible current versions) (o.forbidsMajorBump r.name) with
  | some suggested =>
    if suggested.text = r.resolved then .keep r .alreadyLatest else .upgrade suggested.text
  | none => .keep r .noVersionsAvailable

/-- The reason for a requirement whose package has no lookup. -/
def noLookupMessage : String := "no lookup result"

/-- The judgement on a requirement, given what the lookup of its package came to. -/
def judge (o : SuggestOptions) (r : Requirement) (lookup? : Option Lookup) : Judgement :=
  match o.skipsEarly? r with
  | some (.unresolvedProperty name) => ⟨none, some (.unresolvedProperty name)⟩
  | some reason => .keep r reason
  | none =>
    match Specifier.read r.resolved, lookup? with
    | .error _, _ => .keep r (.invalidSpecifier r.resolved)
    | .ok current, some (.found versions) => o.judgeFound r current versions
    | .ok _, some (.failed error) => .keep r (.fetchFailed error.message)
    | .ok _, some .cancelled => .keep r .cancelled
    | .ok _, none => .keep r (.fetchFailed noLookupMessage)

end SuggestOptions

end MavenUpgrade

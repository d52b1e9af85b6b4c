import MavenUpgrade.Files.Path
import MavenUpgrade.Patch

/-!
# Outcomes

What became of each requirement of a manifest, and of the manifest as a whole.
-/

namespace MavenUpgrade

/-- Why a requirement is not upgraded. -/
inductive SkipReason where
  | alreadyLatest
  | excluded
  | nonProduction
  | noVersionsAvailable
  /-- The lookup of its versions failed. -/
  | fetchFailed (message : String)
  /-- The lookup of its versions was given up. -/
  | cancelled
  /-- Its version text refers to a name without a value. -/
  | unresolvedProperty (name : String)
  /-- Its version text is no specifier. -/
  | invalidSpecifier (text : String)
  deriving DecidableEq, Repr

namespace SkipReason

/-- Whether a requirement is skipped because its lookup came to nothing. -/
def isLookupFailure : SkipReason → Bool
  | fetchFailed _ | cancelled => true
  | _ => false

/-- The wording of a reason. -/
def message : SkipReason → String
  | alreadyLatest => "already at latest"
  | excluded => "excluded by --exclude"
  | nonProduction => "non-production dependency"
  | noVersionsAvailable => "no versions available"
  | fetchFailed text => "fetch failed: " ++ text
  | cancelled => "lookup cancelled"
  | unresolvedProperty name => "unresolved property " ++ Placeholder.text name
  | invalidSpecifier text => "invalid specifier: " ++ text

end SkipReason

/-- How a requirement gets its new version. -/
inductive Route where
  /-- Its own version text is replaced. -/
  | direct
  /-- A property that it refers to is changed. -/
  | property (scope : Scope) (name : String)
  /-- It keeps its version, and is detached from a property that moves away from it. -/
  | pinned
  deriving DecidableEq, Repr

/-- What became of a requirement. -/
inductive Outcome where
  | update (requirement : Requirement) (newVersion : String) (via : Route)
  | skip (requirement : Requirement) (reason : SkipReason)
  deriving DecidableEq, Repr

namespace Outcome

/-- The requirement that an outcome is about. -/
def requirement : Outcome → Requirement
  | update r _ _ => r
  | skip r _ => r

/-- Whether a requirement is changed. -/
def isUpdate : Outcome → Bool
  | update _ _ _ => true
  | skip _ _ => false

/-- Whether a requirement is skipped. -/
def isSkip (o : Outcome) : Bool :=
  !o.isUpdate

/-- Whether a requirement is skipped because its lookup came to nothing. -/
def isLookupFailure : Outcome → Bool
  | skip _ reason => reason.isLookupFailure
  | update _ _ _ => false

/-- The line that shows an outcome. -/
def display : Outcome → String
  | update r newVersion via =>
    r.name ++ ": " ++ r.resolved ++ " → " ++ newVersion ++
      match via with
      | .direct => ""
      | .property _ name => " (via " ++ Placeholder.text name ++ ")"
      | .pinned => " (pinned)"
  | skip r reason => r.name ++ ": skipped (" ++ reason.message ++ ")"

end Outcome

/-- What became of a manifest. -/
structure Summary where
  path : Path
  ecosystem : Ecosystem
  /-- The coordinates of the project. -/
  root : String
  /-- The outcomes of the requirements in document order. -/
  results : List Outcome
  patch : Patch
  /-- Whether the file was written. -/
  modified : Bool
  deriving DecidableEq

namespace Summary

/-- The summary of a manifest before anything happened to it. -/
def start (path : Path) (ecosystem : Ecosystem) (root : String) : Summary :=
  ⟨path, ecosystem, root, [], .empty, false⟩

/-- Adds an outcome. -/
def add (s : Summary) (o : Outcome) : Summary :=
  { s with results := s.results ++ [o] }

/-- The outcomes of changed requirements. -/
def updates (s : Summary) : List Outcome :=
  s.results.filter Outcome.isUpdate

/-- The outcomes of skipped requirements. -/
def skips (s : Summary) : List Outcome :=
  s.results.filter Outcome.isSkip

/-- The outcomes of requirements whose lookup came to nothing. -/
def lookupFailures (s : Summary) : List Outcome :=
  s.results.filter Outcome.isLookupFailure

/-- Whether a requirement is changed. -/
def hasUpdates (s : Summary) : Bool :=
  !s.updates.isEmpty

/-- Whether some requirement could not be checked. -/
def isPartial (s : Summary) : Bool :=
  !s.lookupFailures.isEmpty

/-- A line for each requirement that could not be checked. -/
def errors (s : Summary) : List String :=
  s.results.filterMap fun
    | .skip r reason =>
      if reason.isLookupFailure then some (r.name ++ ": " ++ reason.message) else none
    | .update _ _ _ => none

end Summary

end MavenUpgrade

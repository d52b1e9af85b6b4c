import MavenUpgrade.Specifier

/-!
# Choosing a version

The best specifier for a requirement among the versions that are available. A version gives way to
the latest one when that is newer; a range gives way to the latest version that it does not
accept, and stays otherwise. Where the major component has to stay, only versions with that of
the current version count; for a range this is the latest version that it accepts, or else its
lowest bound.
-/

namespace MavenUpgrade.Specifier

/-- The version whose major component counts as that of a range. -/
def rangeReference? (r : VersionRange) (available : List String) : Option String :=
  (Version.latest? (available.filter r.accepts)).or r.lowestBound?

/-- The available versions that a requirement may move to. -/
def candidates (current : Specifier) (available : List String) (keepMajor : Bool) : List String :=
  let reference? := match current with
    | concrete version => some version
    | range r => rangeReference? r available
  match reference?, keepMajor with
  | some reference, true => available.filter fun v => !isMajorBump reference v
  | _, _ => available

/-- The best specifier that is allowed, if there is any candidate at all. -/
def suggest? (current : Specifier) (available : List String) (keepMajor : Bool) :
    Option Specifier :=
  (Version.latest? (candidates current available keepMajor)).map fun best =>
    match current with
    | concrete version =>
      if Version.compareText best version = .gt then concrete best else current
    | range r => if r.accepts best then current else concrete best

/-- The wording where no version is a candidate. -/
def noCandidateMessage : String := "no versions available"

end MavenUpgrade.Specifier

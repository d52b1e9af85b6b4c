import MavenUpgrade.Text.Lines
import MavenUpgrade.Version.Basic

/-!
# Version ranges

A range is a union of intervals of versions. An interval is bounded on each side by a version
that it accepts or not, or is open to that side.
-/

namespace MavenUpgrade

/-- One end of an interval. -/
structure Bound where
  version : String
  /-- Whether the version itself is accepted. -/
  inclusive : Bool
  deriving DecidableEq, Repr

namespace Bound

/-- Whether a version lies above a lower bound. -/
def belowVersion (b : Bound) (version : String) : Bool :=
  match Version.compareText version b.version with
  | .gt => true
  | .eq => b.inclusive
  | .lt => false

/-- Whether a version lies below an upper bound. -/
def aboveVersion (b : Bound) (version : String) : Bool :=
  match Version.compareText version b.version with
  | .lt => true
  | .eq => b.inclusive
  | .gt => false

end Bound

/-- An interval of versions; a missing bound leaves its side open. -/
structure Interval where
  lower : Option Bound
  upper : Option Bound
  deriving DecidableEq, Repr

/-- Whether a version lies in an interval. -/
def Interval.accepts (i : Interval) (version : String) : Bool :=
  i.lower.all (·.belowVersion version) && i.upper.all (·.aboveVersion version)

/-- A version range with the text that declared it. -/
structure VersionRange where
  raw : String
  intervals : List Interval
  deriving DecidableEq, Repr

namespace Version

/-- The last of the greatest versions of a list. -/
def latest? : List String → Option String
  | [] => none
  | v :: vs => some (vs.foldl (fun best w => if compareText best w = .gt then best else w) v)

/-- The first of the least versions of a list. -/
def earliest? : List String → Option String
  | [] => none
  | v :: vs => some (vs.foldl (fun best w => if compareText best w = .gt then w else best) v)

end Version

namespace VersionRange

/-- Whether some interval of the range accepts a version. -/
def accepts (r : VersionRange) (version : String) : Bool :=
  r.intervals.any (·.accepts version)

/-- The least lower bound that the range mentions, or else its least upper bound. -/
def lowestBound? (r : VersionRange) : Option String :=
  (Version.earliest? (r.intervals.filterMap fun i => i.lower.map (·.version))).or
    (Version.earliest? (r.intervals.filterMap fun i => i.upper.map (·.version)))

end VersionRange

end MavenUpgrade

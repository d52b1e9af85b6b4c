import MavenUpgrade.Report.Style
import MavenUpgrade.Specifier
import MavenUpgrade.Text.Lines

/-!
# Kinds of changes

How far a new version is from the old one: in its major component, in the second one, or in what
follows. What replaces a range is a kind of its own.
-/

namespace MavenUpgrade

/-- How far a new version is from the old one. -/
inductive Change where
  | major
  | minor
  | patch
  | range
  deriving DecidableEq, Repr

namespace Change

/-- The kinds of changes in the order in which they are counted. -/
def all : List Change := [major, minor, patch, range]

/-- The second component of a version text as written, but for the case of its letters. -/
def second? (version : String) : Option (List Char) :=
  ((Text.splitWhere Major.isSeparator version.toList)[1]?).map (·.map Char.toLower)

/-- How far a new version text is from the old one. -/
def ofTexts (old new : String) : Change :=
  if Specifier.beginsRange old then range
  else if isMajorBump old new then major
  else if second? old ≠ second? new then minor
  else patch

/-- The name of a kind of change. -/
def label : Change → String
  | major => "major"
  | minor => "minor"
  | patch => "patch"
  | range => "range"

/-- The style of the name of a kind of change. -/
def style : Change → Style
  | major => .boldRed
  | minor => .yellow
  | patch => .green
  | range => .dimmed

/-- The name of a kind of change as it is shown. -/
def shownLabel (c : Change) (colored : Bool) : String :=
  c.style.paint colored c.label

end Change

end MavenUpgrade

/-!
# Options of a suggestion
-/

namespace MavenUpgrade

/-- What a user asks of suggestions. -/
structure SuggestOptions where
  /-- Whether what is not shipped with the artifact is left alone. -/
  ignoreNonProduction : Bool
  /-- The packages that are left alone. -/
  excluded : List String
  /-- The packages that keep their major component. -/
  keepMajor : List String
  /-- Whether prereleases are no candidates, except where one is in use. -/
  stableOnly : Bool
  deriving DecidableEq, Repr

namespace SuggestOptions

/-- Whether a package is left alone. -/
def isExcluded (o : SuggestOptions) (name : String) : Bool :=
  o.excluded.contains name

/-- Whether a package keeps its major component. -/
def forbidsMajorBump (o : SuggestOptions) (name : String) : Bool :=
  o.keepMajor.contains name

end SuggestOptions

end MavenUpgrade

import MavenUpgrade.Version.Basic

/-!
# Sorting versions

Versions in ascending order; those of the same rank keep their order.
-/

namespace MavenUpgrade.Version

/-- Places a version among others that stand in descending order: before the first one that it is
not less than. -/
def place (version : String) : List String → List String
  | [] => [version]
  | other :: rest =>
    if compareText version other = .lt then other :: place version rest
    else version :: other :: rest

/-- The versions in ascending order. -/
def sort (versions : List String) : List String :=
  (versions.foldl (fun placed version => place version placed) []).reverse

end MavenUpgrade.Version

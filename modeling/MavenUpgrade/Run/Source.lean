import MavenUpgrade.Lookup.Search
import MavenUpgrade.Lookup.Table

/-!
# Sources of versions

Versions come from a table, or from a search in the network.
-/

namespace MavenUpgrade

/-- What requests to an address are answered, one after the other. -/
abbrev Network := String → List Search.Response

/-- The network that answers nothing. -/
def Network.offline : Network := fun _ => []

/-- Where versions are looked up. -/
inductive Source where
  | table (table : VersionTable)
  /-- The search at an address. -/
  | search (endpoint : String)

/-- Looks a package up. -/
def Source.lookup (network : Network) (package : Package) : Source → Lookup
  | table t => t.lookup package.name
  | search endpoint =>
    (Search.run endpoint package.name Search.defaultRetries (network endpoint)).2

end MavenUpgrade

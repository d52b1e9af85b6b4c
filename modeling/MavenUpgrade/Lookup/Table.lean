import MavenUpgrade.Collection.OrderedMap
import MavenUpgrade.Json.Reader
import MavenUpgrade.Lookup.Basic

/-!
# Version tables

A registry given in full: the versions of each package that it knows. It is read from a JSON
object with a list of versions for each name; of a repeated name the last list counts.
-/

namespace MavenUpgrade

/-- The versions of packages, by name. -/
structure VersionTable where
  packages : OrderedMap String (List String)
  deriving DecidableEq

namespace VersionTable

/-- The name of a version table in messages. -/
def registryName : String := "versions file"

/-- The table with the given entries. -/
def ofList (entries : List (String × List String)) : VersionTable :=
  ⟨entries.foldl (fun m e => m.insert e.1 e.2) .empty⟩

/-- An entry of a table. -/
def entry? (field : String × Json) : Option (String × List String) :=
  (field.2.listOf? Json.text?).map (field.1, ·)

/-- The table that a JSON value describes. -/
def ofJson? (value : Json) : Option VersionTable :=
  value.fields?.bind fun fields => (fields.mapM entry?).map ofList

/-- The table that a JSON text describes. -/
def read? (text : String) : Option VersionTable :=
  (Json.ofText? text).bind ofJson?

/-- The number of packages in a table. -/
def size (t : VersionTable) : Nat :=
  t.packages.size

/-- Looks a package up. -/
def lookup (t : VersionTable) (name : String) : Lookup :=
  match t.packages.get? name with
  | some versions => .found versions
  | none => .failed ⟨.unknownPackage, name, registryName⟩

end VersionTable

end MavenUpgrade

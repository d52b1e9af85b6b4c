import MavenUpgrade.Json.Basic
import MavenUpgrade.Lookup.Basic
import MavenUpgrade.Outcome
import MavenUpgrade.Specifier

/-!
# Values as JSON

The JSON form in which requirements, patches and outcomes are exchanged. A record is an object with
a field for each of its parts; a choice without parts is its name, and one with parts is an object
that says which one it is.
-/

namespace MavenUpgrade

/-- The JSON form of an ecosystem. -/
def Ecosystem.toJson : Ecosystem → Json
  | maven => .string "maven"

/-- The JSON form of an origin. -/
def Origin.toJson (o : Origin) : Json :=
  .string o.text

/-- The JSON form of a scope. -/
def Scope.toJson (s : Scope) : Json :=
  .string s.text

/-- The JSON form of a package. -/
def Package.toJson (p : Package) : Json :=
  .object [("ecosystem", p.ecosystem.toJson), ("name", .string p.name)]

/-- The field that holds the scopes which a declaration names; it is left out where there are
none. -/
def Requirement.tagFields (tags : List String) : List (String × Json) :=
  if tags.isEmpty then [] else [("scope_tags", .ofList .string tags)]

/-- The JSON form of a requirement. -/
def Requirement.toJson (r : Requirement) : Json :=
  .object ([("package", r.package.toJson), ("declared", .string r.declared),
    ("resolved", .string r.resolved), ("origin", r.origin.toJson)] ++ tagFields r.scopeTags)

/-- The JSON form of a new version text for a declaration. -/
def DependencyPatch.toJson (d : DependencyPatch) : Json :=
  .object [("package", d.package.toJson), ("origin", d.origin.toJson),
    ("new_require", .string d.newRequire)]

/-- The JSON form of new values of properties. -/
def PropertyPatches.toJson (properties : PropertyPatches) : Json :=
  .object (properties.entries.map fun (scope, values) =>
    (scope.text, .object (values.entries.map fun (name, value) => (name, .string value))))

/-- The JSON form of a patch. -/
def Patch.toJson (p : Patch) : Json :=
  .object [("deps", .ofList DependencyPatch.toJson p.dependencies),
    ("properties", p.properties.toJson)]

/-- The JSON form of a reason. -/
def SkipReason.toJson : SkipReason → Json
  | alreadyLatest => .string "already_latest"
  | excluded => .string "excluded"
  | nonProduction => .string "non_production"
  | noVersionsAvailable => .string "no_versions_available"
  | cancelled => .string "cancelled"
  | fetchFailed text => .object [("fetch_failed", .string text)]
  | unresolvedProperty name => .object [("unresolved_property", .string name)]
  | invalidSpecifier text => .object [("invalid_specifier", .string text)]

/-- The JSON form of a route. -/
def Route.toJson : Route → Json
  | direct => .object [("kind", .string "direct")]
  | property scope name =>
    .object [("kind", .string "property"), ("scope", scope.toJson), ("name", .string name)]
  | pinned => .object [("kind", .string "pinned")]

/-- The JSON form of an outcome. -/
def Outcome.toJson : Outcome → Json
  | update r newVersion via =>
    .object [("type", .string "update"), ("requirement", r.toJson),
      ("new_version", .string newVersion), ("via", via.toJson)]
  | skip r reason =>
    .object [("type", .string "skip"), ("requirement", r.toJson), ("reason", reason.toJson)]

/-- The JSON form of a path; there is none if it is no text. -/
def Path.toJson? (p : Path) : Option Json :=
  p.text?.map .string

/-- The JSON form of a summary with the given form of its path. -/
def Summary.toJsonAt (s : Summary) (path : Json) : Json :=
  .object [("path", path), ("ecosystem", s.ecosystem.toJson), ("root", .string s.root),
    ("results", .ofList Outcome.toJson s.results), ("patch", s.patch.toJson),
    ("modified", .bool s.modified)]

/-- The JSON form of a summary; there is none if its path has none. -/
def Summary.toJson? (s : Summary) : Option Json :=
  s.path.toJson?.map s.toJsonAt

/-- The JSON form of a bound. -/
def Bound.toJson (b : Bound) : Json :=
  .object [("version", .string b.version), ("inclusive", .bool b.inclusive)]

/-- The JSON form of an interval. -/
def Interval.toJson (i : Interval) : Json :=
  .object [("lower", .ofOption Bound.toJson i.lower), ("upper", .ofOption Bound.toJson i.upper)]

/-- The JSON form of a range. -/
def VersionRange.toJson (r : VersionRange) : Json :=
  .object [("raw", .string r.raw), ("intervals", .ofList Interval.toJson r.intervals)]

/-- The JSON form of a specifier. -/
def Specifier.toJson : Specifier → Json
  | concrete version => .object [("kind", .string "concrete"), ("value", .string version)]
  | range r => .object [("kind", .string "range"), ("value", r.toJson)]

end MavenUpgrade

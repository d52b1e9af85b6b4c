import MavenUpgrade.Exchange.Encode
import MavenUpgrade.Json.Printer
import MavenUpgrade.Report.Options

/-!
# Reports for programs

A report as a JSON object that holds the patch as it was applied, so that it can be replayed.
-/

namespace MavenUpgrade.JsonReport

/-- A new version text for a declaration; the package is given by its name. -/
def ofDependency (d : DependencyPatch) : Json :=
  .object [("package", .string d.package.name), ("origin", d.origin.toJson),
    ("new_require", .string d.newRequire)]

/-- The patch of a report. -/
def ofPatch (p : Patch) : Json :=
  .object [("deps", .ofList ofDependency p.dependencies), ("properties", p.properties.toJson)]

/-- An upgraded requirement. -/
def update? : Outcome → Option Json
  | .update r newVersion via =>
    some (.object [("name", .string r.name), ("origin", r.origin.toJson),
      ("from", .string r.resolved), ("to", .string newVersion), ("via", via.toJson)])
  | .skip _ _ => none

/-- A skipped requirement, if it is worth mentioning. -/
def skip? (verbosity : Verbosity) : Outcome → Option Json
  | .skip r reason =>
    if verbosity = .verbose || reason.isLookupFailure then
      some (.object [("name", .string r.name), ("origin", r.origin.toJson),
        ("version", .string r.declared), ("reason", .string reason.message)])
    else none
  | .update _ _ _ => none

/-- The object of a report. -/
def value (o : ReportOptions) (s : Summary) : Json :=
  .object [("dry_run", .bool o.dryRun), ("manifest", .string s.path.shown), ("root", .string s.root),
    ("patch", ofPatch s.patch), ("updates", .array (s.results.filterMap update?)),
    ("skips", .array (s.results.filterMap (skip? o.verbosity))),
    ("errors", .ofList .string s.errors)]

/-- The object with the numbers of a report. -/
def numbers (s : Summary) : Json :=
  .object [("edits", .ofNat s.patch.size), ("skips", .ofNat s.skips.length),
    ("updates", .ofNat s.updates.length)]

end MavenUpgrade.JsonReport

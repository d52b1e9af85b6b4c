import MavenUpgrade.Lookup.Batch
import MavenUpgrade.Pom.Edit
import MavenUpgrade.Report.Options
import MavenUpgrade.Run.Error
import MavenUpgrade.Suggest.Arbitration

/-!
# Planning an upgrade

From the text of a manifest to its new text: the packages that need it are looked up, a patch is
suggested, and it is applied. Nothing is written here.
-/

namespace MavenUpgrade

/-- How the packages of a run are looked up. -/
structure LookupPlan where
  /-- The number of lookups that may run at once. -/
  concurrency : Nat
  /-- Whether the lookups are cancelled before they start. -/
  cancelled : Bool
  /-- The answer to each lookup that is answered at all. -/
  answer? : Package → Option Lookup

namespace LookupPlan

/-- What the lookups of packages come to. -/
def outcomes (l : LookupPlan) (packages : List Package) : List (Package × Lookup) :=
  (Batch.run l.concurrency l.cancelled l.answer? packages).outcomes packages

end LookupPlan

/-- What is to become of a manifest. -/
structure UpgradePlan where
  /-- The coordinates of the project. -/
  root : String
  suggestion : Suggestion
  before : String
  after : String
  deriving DecidableEq

namespace UpgradePlan

/-- The plan for a manifest with the given text. -/
def make (o : SuggestOptions) (l : LookupPlan) (text : String) : Except RunError UpgradePlan := do
  let m ← (Manifest.read text).mapError fun e => .manifest (.malformed e)
  let lookups := l.outcomes (o.packagesToFetch m)
  let suggestion := o.suggest m fun package => lookups.lookup package
  let after ← (applyPatch text suggestion.patch).mapError .patch
  return ⟨m.root.text, suggestion, text, after⟩

/-- Whether there is anything to write. -/
def isChange (p : UpgradePlan) : Bool :=
  p.before != p.after

/-- The report on a plan for the manifest at a path, and on whether it was carried out. -/
def report (p : UpgradePlan) (path : Path) (modified : Bool) : Report where
  summary := ⟨path, .maven, p.root, p.suggestion.results, p.suggestion.patch, modified⟩
  before := p.before
  after := p.after

end UpgradePlan

end MavenUpgrade

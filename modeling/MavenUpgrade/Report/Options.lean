import MavenUpgrade.Outcome

/-!
# Reports

What a report is made from, and how it is to be made.
-/

namespace MavenUpgrade

/-- How much is reported. -/
inductive Verbosity where
  | quiet
  | normal
  | verbose
  deriving DecidableEq, Repr

namespace Verbosity

/-- The amount that two switches ask for; the one for less counts more. -/
def ofFlags (isVerbose isQuiet : Bool) : Verbosity :=
  if isQuiet then quiet else if isVerbose then verbose else normal

/-- The least severe kind of messages that are logged. -/
def logLevel : Verbosity → String
  | quiet => "error"
  | normal => "warn"
  | verbose => "info"

end Verbosity

/-- The form of a report. -/
inductive ReportFormat where
  | text
  | json
  | diff
  deriving DecidableEq, Repr

/-- The form that two switches ask for. -/
def ReportFormat.ofFlags (isJson isDiff : Bool) : ReportFormat :=
  if isJson then json else if isDiff then diff else text

/-- How a report is to be made. -/
structure ReportOptions where
  format : ReportFormat
  verbosity : Verbosity
  /-- Whether the changes are only shown and not made. -/
  dryRun : Bool
  /-- Whether terminal styles are used. -/
  colored : Bool
  deriving DecidableEq, Repr

/-- The mark at the head of what a run reports that changes nothing. -/
def ReportOptions.dryRunMark : String := "(dry-run)"

/-- What is reported: the outcomes, and the text of the manifest before and after. -/
structure Report where
  summary : Summary
  before : String
  after : String
  deriving DecidableEq

/-- Whether the text of the manifest differs afterwards. -/
def Report.isChanged (r : Report) : Bool :=
  r.before != r.after

/-- Lines as a text in which each ends in a line feed. -/
def joinLines (lines : List String) : String :=
  String.join (lines.map (· ++ "\n"))

end MavenUpgrade

import MavenUpgrade.Report.Change
import MavenUpgrade.Report.Options

/-!
# Reports for reading

A report as lines of text: a headline, a line for each upgraded requirement, the skipped ones where
more detail is wanted, the errors, and a closing line with the numbers. A quiet report is the
closing line alone.
-/

namespace MavenUpgrade

/-- The name of a requirement together with its origin, unless that is the usual one. -/
def Requirement.label (r : Requirement) : String :=
  if r.origin = .direct then r.name else r.name ++ " (" ++ r.origin.text ++ ")"

namespace TextReport

/-- The least width of the column of labels. -/
def minLabelWidth : Nat := 20

/-- The width of the column of labels: the size of the longest label. -/
def labelWidth (outcomes : List Outcome) : Nat :=
  (outcomes.map fun o => o.requirement.label.utf8ByteSize).foldl max minLabelWidth

/-- A text filled up with blanks to a number of characters. -/
def pad (width : Nat) (text : String) : String :=
  text ++ String.ofList (List.replicate (width - text.length) ' ')

/-- What stands at the head of the first and the last line. -/
def mark (o : ReportOptions) : String :=
  if o.dryRun then Style.cyan.paint o.colored ReportOptions.dryRunMark ++ " " else ""

/-- How an upgrade is carried out, as the end of its line. -/
def routeNote : Route → String
  | .direct => ""
  | .property _ name => " via property " ++ name
  | .pinned => " pinned"

/-- The arrow between two versions. -/
def arrow (colored : Bool) : String :=
  if colored then "→" else "->"

/-- The line of an upgraded requirement. -/
def updateLine (o : ReportOptions) (width : Nat) (r : Requirement) (newVersion : String)
    (via : Route) : String :=
  "  " ++ pad width r.label ++ " " ++ Style.dimmed.paint o.colored r.resolved ++ " " ++
    Style.dimmed.paint o.colored (arrow o.colored) ++ " " ++
    Style.boldWhite.paint o.colored newVersion ++ " [" ++
    (Change.ofTexts r.resolved newVersion).shownLabel o.colored ++ "]" ++
    Style.dimmed.paint o.colored (routeNote via)

/-- The line of a skipped requirement. -/
def skipLine (o : ReportOptions) (width : Nat) (r : Requirement) (reason : SkipReason) : String :=
  "  " ++ Style.dimmed.paint o.colored (pad width r.label) ++ " " ++
    Style.dimmed.paint o.colored ("(" ++ reason.message ++ ")")

/-- The line of an outcome. -/
def outcomeLine (o : ReportOptions) (width : Nat) : Outcome → String
  | .update r newVersion via => updateLine o width r newVersion via
  | .skip r reason => skipLine o width r reason

/-- The lines of outcomes. -/
def outcomeLines (o : ReportOptions) (outcomes : List Outcome) : List String :=
  outcomes.map (outcomeLine o (labelWidth outcomes))

/-- The line that names the manifest. -/
def headline (o : ReportOptions) (s : Summary) : String :=
  mark o ++ Style.bold.paint o.colored s.path.shown ++ " " ++
    Style.dimmed.paint o.colored ("(" ++ s.root ++ ")")

/-- The lines on the skipped requirements, after an empty one. -/
def skipSection (o : ReportOptions) (s : Summary) : List String :=
  "" :: ("  " ++ Style.dimmed.paint o.colored "Skipped:") :: outcomeLines o s.skips

/-- Whether skipped requirements are shown. -/
def showsSkips (o : ReportOptions) (s : Summary) : Bool :=
  o.verbosity = .verbose && !s.skips.isEmpty

/-- The lines on the outcomes, with an empty one after them. -/
def outcomeSection (o : ReportOptions) (s : Summary) : List String :=
  if s.hasUpdates || showsSkips o s then
    headline o s :: outcomeLines o s.updates ++
      (if showsSkips o s then skipSection o s else []) ++ [""]
  else []

/-- The sign before an error. -/
def errorSign (colored : Bool) : String :=
  if colored then "✗" else "-"

/-- The lines on the errors, with an empty one after them. -/
def errorSection (o : ReportOptions) (s : Summary) : List String :=
  if s.errors.isEmpty then []
  else
    (Style.boldRed.paint o.colored "Errors" ++ ":") ::
      s.errors.map (fun e => "  " ++ Style.red.paint o.colored (errorSign o.colored) ++ " " ++ e) ++
      [""]

/-- The kind of change of an outcome. -/
def change? : Outcome → Option Change
  | .update r newVersion _ => some (.ofTexts r.resolved newVersion)
  | .skip _ _ => none

/-- The numbers of upgrades of each kind that occurs. -/
def changeCounts (s : Summary) : String :=
  let changes := s.results.filterMap change?
  ", ".intercalate ((Change.all.filter fun c => changes.contains c).map fun c =>
    Nat.repr (changes.count c) ++ " " ++ c.label)

/-- The line of a quiet report. -/
def quietLine (o : ReportOptions) (s : Summary) : String :=
  if s.hasUpdates then
    mark o ++ Style.green.paint o.colored (Nat.repr s.updates.length) ++ " updated"
  else mark o ++ Style.dimmed.paint o.colored "No updates"

/-- The line with the numbers of upgrades and edits. -/
def totalLine (o : ReportOptions) (s : Summary) : String :=
  if s.hasUpdates then
    mark o ++ Style.bold.paint o.colored "Summary" ++ ": " ++
      Style.green.paint o.colored (Nat.repr s.updates.length) ++ " requirement(s) updated (" ++
      changeCounts s ++ ") with " ++ Nat.repr s.patch.size ++ " edit(s)"
  else mark o ++ Style.green.paint o.colored "All dependencies are up to date"

/-- The closing lines. -/
def closing (o : ReportOptions) (s : Summary) : List String :=
  if o.verbosity = .quiet then [quietLine o s]
  else
    totalLine o s ::
      if showsSkips o s then ["  " ++ Nat.repr s.skips.length ++ " requirement(s) skipped"] else []

/-- The lines of a report. -/
def lines (o : ReportOptions) (s : Summary) : List String :=
  if o.verbosity = .quiet then closing o s
  else outcomeSection o s ++ errorSection o s ++ closing o s

end TextReport

end MavenUpgrade

import MavenUpgrade.Report.Diff
import MavenUpgrade.Report.Json
import MavenUpgrade.Report.Text

/-!
# Writing reports

The text of a report, and of its closing part alone, in each of the forms.
-/

namespace MavenUpgrade.ReportOptions

/-- The text of a report. -/
def render (o : ReportOptions) (r : Report) : String :=
  match o.format with
  | .text => joinLines (TextReport.lines o r.summary)
  | .json => joinLines [(JsonReport.value o r.summary).pretty]
  | .diff => joinLines (DiffReport.lines o r)

/-- The text of the closing part of a report. -/
def renderClosing (o : ReportOptions) (s : Summary) : String :=
  match o.format with
  | .text => joinLines (TextReport.closing o s)
  | .json => joinLines [(JsonReport.numbers s).compact]
  | .diff => joinLines [DiffReport.closing o s]

end MavenUpgrade.ReportOptions

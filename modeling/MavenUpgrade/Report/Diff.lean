import MavenUpgrade.Report.Options
import MavenUpgrade.Text.Lines

/-!
# Line differences

The difference of two texts as hunks. Where they have equally many lines, each line that differs is
a hunk; otherwise one hunk replaces the whole text.
-/

namespace MavenUpgrade

/-- A piece of the difference between two texts. -/
inductive Hunk where
  /-- The line with the given number, counted from one, gets a new text. -/
  | line (number : Nat) (old new : String)
  /-- All lines are replaced. -/
  | whole (old new : List String)
  deriving DecidableEq, Repr

namespace Hunk

/-- The lines that show a hunk. -/
def lines : Hunk → List String
  | line number old new =>
    ["@@ -" ++ Nat.repr number ++ " +" ++ Nat.repr number ++ " @@", "-" ++ old, "+" ++ new]
  | whole old new =>
    ("@@ -1," ++ Nat.repr old.length ++ " +1," ++ Nat.repr new.length ++ " @@") ::
      old.map ("-" ++ ·) ++ new.map ("+" ++ ·)

/-- The hunks of the lines that differ, where `number` is the number of the first line. -/
def ofLines (number : Nat) : List String → List String → List Hunk
  | old :: olds, new :: news =>
    if old = new then ofLines (number + 1) olds news
    else line number old new :: ofLines (number + 1) olds news
  | _, _ => []

/-- The hunks of the difference of two lists of lines. -/
def between (before after : List String) : List Hunk :=
  if before.length = after.length then ofLines 1 before after else [whole before after]

end Hunk

/-- The lines of a text. -/
def textLines (text : String) : List String :=
  (Text.lines text.toList).map String.ofList

/-- The hunks of the difference of two texts. -/
def hunks (before after : String) : List Hunk :=
  Hunk.between (textLines before) (textLines after)

/-- The difference of two texts as it is written. -/
structure LineDiff where
  /-- The lines that show the hunks. -/
  lines : List String
  /-- The number of the hunks. -/
  count : Nat
  deriving DecidableEq, Repr

/-- The difference of two texts, hunk by hunk. -/
def LineDiff.ofTexts (before after : String) : LineDiff :=
  let shown := hunks before after
  ⟨shown.flatMap Hunk.lines, shown.length⟩

namespace DiffReport

/-- What stands at the head of lines that are not part of a hunk. -/
def mark (o : ReportOptions) : String :=
  if o.dryRun then ReportOptions.dryRunMark ++ " " else ""

/-- The closing line. -/
def closing (o : ReportOptions) (s : Summary) : String :=
  mark o ++ "# " ++ Nat.repr s.updates.length ++ " requirement(s) updated, " ++
    Nat.repr s.skips.length ++ " skipped"

/-- The lines on the changed text, with an empty one after them. -/
def changeSection (o : ReportOptions) (r : Report) : List String :=
  if r.isChanged then
    (mark o ++ "--- a/" ++ r.summary.path.shown) :: (mark o ++ "+++ b/" ++ r.summary.path.shown) ::
      (LineDiff.ofTexts r.before r.after).lines ++ [""]
  else []

/-- The lines of a report. -/
def lines (o : ReportOptions) (r : Report) : List String :=
  changeSection o r ++ [closing o r.summary]

end DiffReport

end MavenUpgrade

/-!
# Lines and pieces of a text

A text is cut into lines at each line feed, and into pieces at each character of a given kind.
The pieces of a text joined by what was cut give the text back; the lines do not, since a line
may have ended in a carriage return and the last one in nothing.
-/

namespace MavenUpgrade.Text

/-- The pieces between the characters that `p` accepts; a text without one is a single piece. The
characters may be others than those of a text. -/
def splitWhere {α : Type} (p : α → Bool) : List α → List (List α)
  | [] => [[]]
  | c :: cs =>
    if p c then [] :: splitWhere p cs
    else match splitWhere p cs with
      | piece :: rest => (c :: piece) :: rest
      | [] => [[c]]

/-- There is always at least one piece. -/
theorem splitWhere_ne_nil {α : Type} (p : α → Bool) (cs : List α) : splitWhere p cs ≠ [] := by
  induction cs with
  | nil => simp [splitWhere]
  | cons c cs ih =>
    simp only [splitWhere]
    split
    · simp
    · cases h : splitWhere p cs with
      | nil => exact absurd h ih
      | cons piece rest => simp

/-- A line without the carriage return it ends with. -/
def dropReturn (line : List Char) : List Char :=
  if line.getLast? = some '\r' then line.dropLast else line

/--
The lines of a text: what stands before each line feed, and what follows the last one when it is
not empty. One carriage return before a line feed belongs to the line break.
-/
def lines (cs : List Char) : List (List Char) :=
  let pieces := splitWhere (· == '\n') cs
  let last := pieces.getLastD []
  pieces.dropLast.map dropReturn ++ (if last.isEmpty then [] else [last])

end MavenUpgrade.Text

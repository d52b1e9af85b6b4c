import MavenUpgrade.Settings.Error
import MavenUpgrade.Text.Blank
import MavenUpgrade.Text.Digits

/-!
# Durations

A duration is written as a whole number of seconds, minutes or hours, with the first letter of the
unit behind it; without a unit the number counts seconds. No time at all is no duration.
-/

namespace MavenUpgrade.Duration

/-- The seconds in a unit, by its letter. -/
def units : List (Char × Nat) := [('s', 1), ('m', 60), ('h', 60 * 60)]

/-- The number in a text, and the seconds in the unit behind it. -/
def splitUnit (text : List Char) : List Char × Nat :=
  match text.getLast?.bind fun c => units.lookup c with
  | some seconds => (text.dropLast, seconds)
  | none => (text, 1)

/-- The seconds of the duration that a text writes. -/
def seconds? (text : List Char) : Option Nat :=
  let (number, seconds) := splitUnit text
  ((Text.wholeNumber? number).filter (· ≠ 0)).map (· * seconds)

/-- The seconds of the duration that a text writes, apart from blanks at its two ends. -/
def read (text : String) : Except SettingsError Nat :=
  let trimmed := Text.trimmed text
  match seconds? trimmed.toList with
  | some seconds => .ok seconds
  | none => .error (.invalidDuration trimmed)

end MavenUpgrade.Duration

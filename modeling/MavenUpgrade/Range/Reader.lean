import MavenUpgrade.Range.Basic

/-!
# Reading version ranges

The notation of ranges: intervals separated by commas, each in brackets that say whether its
bounds belong to it. A single version in square brackets is the interval of that version alone.
-/

namespace MavenUpgrade

/-- Why a text is no range. -/
inductive RangeFault where
  /-- An interval is missing. -/
  | noInterval
  /-- An interval does not begin with a bracket. -/
  | noOpening
  /-- An interval has no closing bracket. -/
  | unterminated
  /-- Two intervals are not separated by a comma. -/
  | noComma
  /-- An interval without a comma is empty or not in square brackets. -/
  | badSingle
  /-- An interval has more than one comma. -/
  | tooManyBounds
  deriving DecidableEq, Repr

/-- A text that is no range, and why. -/
structure RangeError where
  fault : RangeFault
  text : String
  deriving DecidableEq, Repr

/-- The wording of a refused range. -/
def RangeError.message (e : RangeError) : String :=
  match e.fault with
  | .noInterval => "empty range '" ++ e.text ++ "'"
  | .noOpening => "expected '[' or '(' in range '" ++ e.text ++ "'"
  | .unterminated => "unterminated interval in range '" ++ e.text ++ "'"
  | .noComma => "expected ',' between intervals in range '" ++ e.text ++ "'"
  | .badSingle => "invalid single-version interval in '" ++ e.text ++ "'"
  | .tooManyBounds => "too many bounds in interval of '" ++ e.text ++ "'"

/-- The bound that the text on one side of a comma stands for; a blank text leaves it open. -/
def Bound.ofSide (side : List Char) (inclusive : Bool) : Option Bound :=
  let version := Text.trim side
  if version.isEmpty then none else some ⟨String.ofList version, inclusive⟩

/-- The interval with the given text between its brackets. -/
def Interval.ofInner (inner : List Char) (square closedSquare : Bool) :
    Except RangeFault Interval :=
  match Text.splitWhere (· == ',') inner with
  | [single] =>
    if (Text.trim single).isEmpty || !square || !closedSquare then .error .badSingle
    else .ok ⟨Bound.ofSide single true, Bound.ofSide single true⟩
  | [lower, upper] => .ok ⟨Bound.ofSide lower square, Bound.ofSide upper closedSquare⟩
  | _ => .error .tooManyBounds

namespace VersionRange

/-- Whether a character closes an interval. -/
def isClosing (c : Char) : Bool :=
  c == ']' || c == ')'

theorem length_trimStart_le (cs : List Char) : (Text.trimStart cs).length ≤ cs.length :=
  (List.dropWhile_sublist _).length_le

/-- The intervals that a text lists. -/
def readIntervals (cs : List Char) : Except RangeFault (List Interval) :=
  match _h₁ : Text.trimStart cs with
  | [] => .error .noInterval
  | opening :: afterOpening =>
    if opening ≠ '[' ∧ opening ≠ '(' then .error .noOpening
    else
      match _h₂ : afterOpening.dropWhile (fun c => !isClosing c) with
      | [] => .error .unterminated
      | closing :: afterInterval => do
        let inner := afterOpening.takeWhile fun c => !isClosing c
        let interval ← Interval.ofInner inner (opening == '[') (closing == ']')
        match _h₃ : Text.trimStart afterInterval with
        | [] => .ok [interval]
        | separator :: rest =>
          if separator = ',' then do
            let intervals ← readIntervals rest
            .ok (interval :: intervals)
          else .error .noComma
termination_by cs.length
decreasing_by
  have l₁ := length_trimStart_le cs
  have l₂ := (List.dropWhile_sublist (l := afterOpening) (fun c => !isClosing c)).length_le
  have l₃ := length_trimStart_le afterInterval
  simp only [_h₁, _h₂, _h₃, List.length_cons] at l₁ l₂ l₃
  omega

/-- The range that a text declares. -/
def read (text : String) : Except RangeError VersionRange :=
  match readIntervals (Text.trim text.toList) with
  | .ok intervals => .ok ⟨text, intervals⟩
  | .error fault => .error ⟨fault, text⟩

end VersionRange

end MavenUpgrade

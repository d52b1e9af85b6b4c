import MavenUpgrade.Template.Basic

/-!
# Interpolation

Writing the values of placeholders into a text, and the values of the placeholders in these, to a
depth of at most 32 names. A placeholder stays as it is when its name has no value, when its name
is being replaced already, or when it stands deeper than that.
-/

namespace MavenUpgrade.Interpolation

/-- The most names that may be replaced inside each other. -/
def maxDepth : Nat := 32

/--
The text with its placeholders replaced through at most `depth` names. The names in `active` are
being replaced already.
-/
def expand (value? : String → Option String) : (depth : Nat) → (active : List String) →
    String → String
  | 0, _, text => text
  | depth + 1, active, text =>
    String.join ((Template.ofText text).segments.map (Segment.fill fun name =>
      if name ∈ active then none
      else (value? name).map (expand value? depth (name :: active))))

/-- The text with the values of its placeholders. -/
def interpolate (value? : String → Option String) (text : String) : String :=
  expand value? maxDepth [] text

end MavenUpgrade.Interpolation

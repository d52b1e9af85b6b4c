import MavenUpgrade.Range.Reader

/-!
# Version specifiers

What a declaration asks for: one version, or any version of a range. A text is a range when it
begins with a bracket.
-/

namespace MavenUpgrade

/-- The version or the versions that a declaration asks for. -/
inductive Specifier where
  | concrete (version : String)
  | range (range : VersionRange)
  deriving DecidableEq, Repr

/-- Why a text is no specifier. -/
inductive SpecifierError where
  /-- The text is blank. -/
  | blank
  | range (error : RangeError)
  deriving DecidableEq, Repr

/-- The wording of a refused specifier. -/
def SpecifierError.message : SpecifierError → String
  | blank => "empty version requirement"
  | range error => error.message

namespace Specifier

/-- The text of a specifier. -/
def text : Specifier → String
  | concrete version => version
  | range r => r.raw

/-- Whether a specifier is a range. -/
def isRange : Specifier → Bool
  | concrete _ => false
  | range _ => true

/-- Whether a text begins as a range does. -/
def beginsRange (text : String) : Bool :=
  match text.toList with
  | c :: _ => c == '[' || c == '('
  | [] => false

/-- The specifier that a text declares. -/
def read (text : String) : Except SpecifierError Specifier :=
  let trimmed := Text.trimmed text
  if trimmed.isEmpty then .error .blank
  else if beginsRange trimmed then
    match VersionRange.read trimmed with
    | .ok r => .ok (range r)
    | .error e => .error (.range e)
  else .ok (concrete trimmed)

end Specifier

end MavenUpgrade

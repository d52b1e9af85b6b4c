import MavenUpgrade.Origin
import MavenUpgrade.Template.Placeholder

/-!
# Requirements

A package, and one declaration that asks for a version of it.
-/

namespace MavenUpgrade

/-- A family of packages with one kind of manifest. -/
inductive Ecosystem where
  | maven
  deriving DecidableEq, Repr

/-- The name of the file that holds a manifest. -/
def Ecosystem.manifestName : Ecosystem → String
  | maven => "pom.xml"

/-- A package, wherever it is declared. -/
structure Package where
  ecosystem : Ecosystem
  /-- The group and the artifact, joined by a colon. -/
  name : String
  deriving DecidableEq, Repr

/-- The package with the given group and artifact. -/
def Package.ofCoordinates (group artifact : String) : Package :=
  ⟨.maven, group ++ ":" ++ artifact⟩

/-- A declaration that asks for a version of a package. -/
structure Requirement where
  package : Package
  /-- The version text as declared. -/
  declared : String
  /-- The version text with the values of its placeholders. -/
  resolved : String
  origin : Origin
  /-- The scope that the declaration names, if it names one. -/
  scopeTags : List String
  deriving DecidableEq, Repr

namespace Requirement

/-- The scope of what is not shipped with the artifact. -/
def testTag : String := "test"

/-- The name of the package. -/
def name (r : Requirement) : String :=
  r.package.name

/-- Whether the declared text refers to a property. -/
def usesPlaceholder (r : Requirement) : Bool :=
  Placeholder.mentioned r.declared

/-- Whether a placeholder is left in the resolved text. -/
def isUnresolved (r : Requirement) : Bool :=
  Placeholder.mentioned r.resolved

/-- Whether what is declared is not shipped with the artifact. -/
def isNonProduction (r : Requirement) : Bool :=
  r.scopeTags.contains testTag

/-- The line that shows a requirement. -/
def display (r : Requirement) : String :=
  r.name ++ "@" ++ r.declared ++
    (if r.origin = .direct then "" else " (" ++ r.origin.text ++ ")") ++
    (if r.isNonProduction then " (test)" else "")

end Requirement

end MavenUpgrade

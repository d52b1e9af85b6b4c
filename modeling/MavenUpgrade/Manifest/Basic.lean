import MavenUpgrade.Manifest.Properties
import MavenUpgrade.Patch
import MavenUpgrade.Pom.Declaration
import MavenUpgrade.Template.Interpolation

/-!
# Manifests

A project document as requirements and the values that their version texts refer to. A placeholder
stands for a property of the scope it is used in, or else of the project, or else for one of the
values that every project has. What a patch would make of a text can be asked before it is applied.

A requirement refers to the declared properties that its version text names, and these tie
requirements together: the members of a property are the requirements that refer to it.
-/

namespace MavenUpgrade

/-- What the placeholders of a project may refer to. -/
structure Environment where
  root : Coordinates
  parent? : Option Coordinates
  properties : PropertySet
  deriving DecidableEq

namespace Environment

/-- The values that every project has without declaring them. -/
def builtin? (env : Environment) : String → Option String
  | "project.version" => some env.root.version
  | "version" => some env.root.version
  | "pom.version" => some env.root.version
  | "project.groupId" => some env.root.groupId
  | "project.artifactId" => some env.root.artifactId
  | "project.parent.version" => env.parent?.map (·.version)
  | "project.parent.groupId" => env.parent?.map (·.groupId)
  | _ => none

/-- The value of a name as seen from a scope. -/
def lookup? (env : Environment) (scope : Scope) (name : String) : Option String :=
  ((env.properties.locate? scope name).bind fun found => env.properties.get? found name).or
    (env.builtin? name)

/-- The value of a name as seen from a scope once a patch is applied. -/
def lookupPatched? (env : Environment) (patch : Patch) (scope : Scope) (name : String) :
    Option String :=
  ((env.properties.locate? scope name).bind fun found => patch.property? found name).or
    (env.lookup? scope name)

/-- A text with the values of its placeholders. -/
def resolve (env : Environment) (scope : Scope) (text : String) : String :=
  Interpolation.interpolate (env.lookup? scope) text

/-- A text with the values that its placeholders have once a patch is applied. -/
def resolvePatched (env : Environment) (patch : Patch) (scope : Scope) (text : String) : String :=
  Interpolation.interpolate (env.lookupPatched? patch scope) text

/-- The value of a property as declared; a property that is not declared has the empty value. -/
def rawValue (env : Environment) (p : PropertyRef) : String :=
  (env.properties.get? p.scope p.name).getD ""

/-- The value of a declared property with the values of its placeholders. -/
def propertyValue? (env : Environment) (p : PropertyRef) : Option String :=
  (env.properties.get? p.scope p.name).map (env.resolve p.scope)

/-- The declared properties that a text names, as seen from a scope. -/
def refs (env : Environment) (scope : Scope) (text : String) : List PropertyRef :=
  (Placeholder.names text).filterMap fun name =>
    (env.properties.locate? scope name).map (⟨·, name⟩)

end Environment

/-- A manifest. -/
structure Manifest extends Environment where
  /-- The requirements in document order. -/
  requirements : List Requirement
  deriving DecidableEq

namespace Manifest

/-- The requirement that a dependency declares. -/
def requirementOf (env : Environment) (d : DependencyDeclaration) : Requirement where
  package := d.package
  declared := d.declared
  resolved := env.resolve d.origin.scope d.declared
  origin := d.origin
  scopeTags := d.tag?.toList

/-- The environment of a project document. -/
def environmentOf (pom : Pom) : Environment where
  root := pom.root
  parent? := pom.parent?
  properties := pom.properties.foldl (fun s p => s.insert p.scope p.name p.value) .empty

/-- The manifest of a project document. Of two dependencies on one package in one place the first
counts. -/
def ofPom (pom : Pom) : Manifest where
  toEnvironment := environmentOf pom
  requirements :=
    (distinctBy (fun d => (d.package, d.origin)) pom.dependencies).map
      (requirementOf (environmentOf pom))

/-- The manifest that a text holds. -/
def read (text : String) : Except Malformation Manifest :=
  (Pom.read text).map ofPom

/-- The declared properties that a requirement refers to. -/
def requirementRefs (m : Manifest) (r : Requirement) : List PropertyRef :=
  m.refs r.origin.scope r.declared

/-- The declared properties that the requirement at an index refers to. -/
def refsAt (m : Manifest) (index : Nat) : List PropertyRef :=
  (m.requirements[index]?.map m.requirementRefs).getD []

/-- The indices of the requirements that refer to a property. -/
def members (m : Manifest) (p : PropertyRef) : List Nat :=
  (List.range m.requirements.length).filter fun index => p ∈ m.refsAt index

/-- The properties that requirements refer to, in the order of their first use. -/
def usedProperties (m : Manifest) : List PropertyRef :=
  distinct (m.requirements.flatMap m.requirementRefs)

/-- The packages that are required, each with the scopes that its declarations name. -/
def groups (m : Manifest) : List (Package × List String) :=
  (distinct (m.requirements.map (·.package))).map fun package =>
    (package, distinct ((m.requirements.filter (·.package = package)).flatMap (·.scopeTags)))

end Manifest

end MavenUpgrade

import MavenUpgrade.Manifest.Error
import MavenUpgrade.Requirement
import MavenUpgrade.Text.Blank
import MavenUpgrade.Xml.Document

/-!
# Declarations of a project document

What a project document declares: the coordinates of the project and of its parent, the versions
of dependencies, and properties. A declaration carries the span of the text that can be edited
in place, if there is one: the text must be the only content of its element and be written plainly,
without references and literal sections.

Dependencies are declared in the parent reference, in the project and in each profile; in the
latter two directly, for dependency management, and for build plugins. A dependency without a
version is managed elsewhere and does not count.
-/

namespace MavenUpgrade

/-- The coordinates of a project. -/
structure Coordinates where
  groupId : String
  artifactId : String
  version : String
  deriving DecidableEq, Repr

/-- The written form of coordinates. -/
def Coordinates.text (c : Coordinates) : String :=
  c.groupId ++ ":" ++ c.artifactId ++ ":" ++ c.version

/-- The characters of a text from one offset up to another. -/
structure Span where
  start : Nat
  stop : Nat
  deriving DecidableEq, Repr

/-- A dependency with a version. -/
structure DependencyDeclaration where
  package : Package
  origin : Origin
  /-- The version text. -/
  declared : String
  /-- The scope that the declaration names. -/
  tag? : Option String
  /-- Where the version text can be edited. -/
  span? : Option Span
  /-- Where the declaring element begins. -/
  position : Nat
  deriving DecidableEq, Repr

/-- A property with its value. -/
structure PropertyDeclaration where
  scope : Scope
  name : String
  value : String
  /-- Where the value can be edited. -/
  span? : Option Span
  deriving DecidableEq, Repr

/-- What a project document declares. -/
structure Pom where
  root : Coordinates
  parent? : Option Coordinates
  /-- The dependencies in document order. -/
  dependencies : List DependencyDeclaration
  /-- The properties of the project, then those of each profile. -/
  properties : List PropertyDeclaration
  deriving DecidableEq, Repr

namespace Xml.Node

/-- The name of an element. -/
def name? : Node → Option String
  | element _ name _ => some name
  | _ => none

/-- The children of an element. -/
def children : Node → List Node
  | element _ _ children => children
  | _ => []

/-- The offset of the first character of an element. -/
def start : Node → Nat
  | element start _ _ => start
  | text start _ _ => start
  | aside => 0

/-- The child elements with the given name. -/
def childrenNamed (node : Node) (name : String) : List Node :=
  node.children.filter fun child => child.name? = some name

/-- The first child element with the given name. -/
def child? (node : Node) (name : String) : Option Node :=
  node.children.find? fun child => child.name? = some name

/-- What a text says; an element says nothing of its own. -/
def content : Node → List Char
  | text _ _ content => content
  | _ => []

/-- What the texts of an element say together, without the blanks around it. -/
def textContent (node : Node) : String :=
  String.ofList (Text.trim (node.children.flatMap content))

/-- What the first child element with the given name says, if it says anything. -/
def childText? (node : Node) (name : String) : Option String :=
  ((node.child? name).map textContent).filter (!·.isEmpty)

/-- The span of what an element says, when that is a single text that is written plainly. -/
def plainSpan? (node : Node) : Option Span :=
  match node.children with
  | [text start source content] =>
    let trimmed := Text.trim source
    if source = content ∧ trimmed ≠ [] then
      let first := start + (source.length - (Text.trimStart source).length)
      some ⟨first, first + trimmed.length⟩
    else none
  | _ => none

end Xml.Node

namespace Pom

open Xml (Node)

/-- The group of a build plugin that names none. -/
def defaultPluginGroup : String := "org.apache.maven.plugins"

/-- The dependency that a version element declares, if it says anything. -/
def dependencyOf? (package : Package) (origin : Origin) (version : Node) (tag? : Option String)
    (position : Nat) : Option DependencyDeclaration :=
  let declared := version.textContent
  if declared.isEmpty then none
  else some ⟨package, origin, declared, tag?, version.plainSpan?, position⟩

/-- The dependencies with a version in a list of dependencies. -/
def dependenciesIn (origin : Origin) (list : Node) : List DependencyDeclaration :=
  (list.childrenNamed "dependency").filterMap fun node => do
    let group ← node.childText? "groupId"
    let artifact ← node.childText? "artifactId"
    let version ← node.child? "version"
    dependencyOf? (.ofCoordinates group artifact) origin version (node.childText? "scope")
      node.start

/-- The build plugins of the project or of a profile, those that are only managed last. -/
def pluginsIn (node : Node) : List Node :=
  match node.child? "build" with
  | some build =>
    let managed := (build.child? "pluginManagement").bind (·.child? "plugins")
    ((build.child? "plugins").toList ++ managed.toList).flatMap (·.childrenNamed "plugin")
  | none => []

/-- The dependencies of a build plugin; a plugin without a name has none. -/
def pluginDependencies (origin : ProfileSection → Origin) (plugin : Node) :
    List DependencyDeclaration :=
  match plugin.childText? "artifactId", plugin.child? "dependencies" with
  | some artifact, some list =>
    let group := (plugin.childText? "groupId").getD defaultPluginGroup
    dependenciesIn (origin (.plugin (group ++ ":" ++ artifact))) list
  | _, _ => []

/-- The dependencies of the project or of a profile, section by section. -/
def sectionDependencies (origin : ProfileSection → Origin) (node : Node) :
    List DependencyDeclaration :=
  let managed := (node.child? "dependencyManagement").bind (·.child? "dependencies")
  (node.child? "dependencies").toList.flatMap (dependenciesIn (origin .direct)) ++
    managed.toList.flatMap (dependenciesIn (origin .management)) ++
    (pluginsIn node).flatMap (pluginDependencies origin)

/-- The origin of a section of the project itself. -/
def projectOrigin : ProfileSection → Origin
  | .direct => .direct
  | .management => .management
  | .plugin plugin => .plugin plugin

/-- The properties of the project or of a profile. -/
def propertiesIn (scope : Scope) (node : Node) : List PropertyDeclaration :=
  match node.child? "properties" with
  | some list => list.children.filterMap fun property =>
      property.name?.map fun name => ⟨scope, name, property.textContent, property.plainSpan?⟩
  | none => []

/-- The profiles that have an id, with their ids. -/
def profilesIn (project : Node) : List (String × Node) :=
  (project.child? "profiles").toList.flatMap fun list =>
    (list.childrenNamed "profile").filterMap fun profile =>
      (profile.childText? "id").map (·, profile)

/-- The coordinates of the parent, when it has all three. -/
def parentOf? (project : Node) : Option Coordinates := do
  let parent ← project.child? "parent"
  let groupId ← parent.childText? "groupId"
  let artifactId ← parent.childText? "artifactId"
  let version ← parent.childText? "version"
  return ⟨groupId, artifactId, version⟩

/-- The dependency on the parent, when the parent has all three coordinates. -/
def parentDependency? (project : Node) : Option DependencyDeclaration := do
  let node ← project.child? "parent"
  let parent ← parentOf? project
  let version ← node.child? "version"
  dependencyOf? (.ofCoordinates parent.groupId parent.artifactId) .parent version none node.start

/-- The coordinates of the project; it inherits the group and the version of its parent. -/
def rootOf (project : Node) : Except Malformation Coordinates := do
  let parent? := parentOf? project
  let required (name : String) (value? : Option String) : Except Malformation String :=
    match value? with
    | some value => .ok value
    | none => .error (.missing name)
  let groupId ← required "groupId"
    ((project.childText? "groupId").or (parent?.map (·.groupId)))
  let artifactId ← required "artifactId" (project.childText? "artifactId")
  let version ← required "version"
    ((project.childText? "version").or (parent?.map (·.version)))
  return ⟨groupId, artifactId, version⟩

/-- What the root element of a document declares. -/
def ofProject (project : Node) : Except Malformation Pom := do
  let root ← rootOf project
  let profiles := profilesIn project
  let dependencies := (parentDependency? project).toList ++
    sectionDependencies projectOrigin project ++
    profiles.flatMap fun (id, node) => sectionDependencies (.profile id) node
  let properties := propertiesIn .root project ++
    profiles.flatMap fun (id, node) => propertiesIn (.profile id) node
  return {
    root
    parent? := parentOf? project
    dependencies := dependencies.mergeSort fun d e => d.position ≤ e.position
    properties }

/-- What a project document declares. -/
def read (text : String) : Except Malformation Pom :=
  match Xml.readDocument? text.toList with
  | some root =>
    match root.name? with
    | some "project" => ofProject root
    | name? => .error (.wrongRoot (name?.getD ""))
  | none => .error .notXml

end Pom

end MavenUpgrade

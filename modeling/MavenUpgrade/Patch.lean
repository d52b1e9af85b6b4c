import MavenUpgrade.Collection.SortedMap
import MavenUpgrade.Requirement

/-!
# Patches

The changes to one manifest: new version texts for single declarations, and new values of
properties.
-/

namespace MavenUpgrade

/-- A new version text for one declaration. -/
structure DependencyPatch where
  package : Package
  origin : Origin
  newRequire : String
  deriving DecidableEq, Repr

/-- New values of properties, by scope and name. -/
abbrev PropertyPatches := SortedMap Scope (SortedMap String String)

/-- The changes to one manifest. -/
structure Patch where
  /-- The declarations with a new version text, in document order. -/
  dependencies : List DependencyPatch
  properties : PropertyPatches
  deriving DecidableEq

namespace Patch

/-- The patch that changes nothing. -/
def empty : Patch := ⟨[], .empty⟩

/-- Adds a new version text for a declaration. -/
def override (p : Patch) (d : DependencyPatch) : Patch :=
  { p with dependencies := p.dependencies ++ [d] }

/-- Sets the new value of a property. -/
def setProperty (p : Patch) (scope : Scope) (name value : String) : Patch :=
  let values := (p.properties.get? scope).getD .empty
  { p with properties := p.properties.insert scope (values.insert name value) }

/-- The new value of a property. -/
def property? (p : Patch) (scope : Scope) (name : String) : Option String :=
  (p.properties.get? scope).bind fun values => values.get? name

/-- The new version text of a declaration. -/
def dependency? (p : Patch) (package : Package) (origin : Origin) : Option DependencyPatch :=
  p.dependencies.find? fun d => d.package = package ∧ d.origin = origin

/-- The new values of properties, one by one. -/
def propertyChanges (p : Patch) : List (Scope × String × String) :=
  p.properties.entries.flatMap fun (scope, values) =>
    values.entries.map fun (name, value) => (scope, name, value)

/-- The number of changed properties. -/
def propertyCount (p : Patch) : Nat :=
  p.properties.entries.foldl (fun n (_, values) => n + values.size) 0

/-- The number of changes. -/
def size (p : Patch) : Nat :=
  p.dependencies.length + p.propertyCount

/-- Whether a patch changes nothing. -/
def isEmpty (p : Patch) : Bool :=
  p.size == 0

end Patch

end MavenUpgrade

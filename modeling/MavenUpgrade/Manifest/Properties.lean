import MavenUpgrade.Collection.OrderedMap
import MavenUpgrade.Origin

/-!
# Properties

The properties of a manifest, by scope and name. A property that is declared again keeps its place
and takes the later value. A declaration sees the properties of its own scope first, then those of
the project.
-/

namespace MavenUpgrade

/-- A property, by the scope it is declared in and its name. -/
structure PropertyRef where
  scope : Scope
  name : String
  deriving DecidableEq, Repr

/-- The values of properties, by scope and name, in the order of their first declarations. -/
structure PropertySet where
  scopes : OrderedMap Scope (OrderedMap String String)
  deriving DecidableEq

namespace PropertySet

/-- The set without properties. -/
def empty : PropertySet := ⟨.empty⟩

/-- Declares a property. -/
def insert (s : PropertySet) (scope : Scope) (name value : String) : PropertySet :=
  ⟨s.scopes.insert scope (((s.scopes.get? scope).getD .empty).insert name value)⟩

/-- The value of the property of exactly this scope. -/
def get? (s : PropertySet) (scope : Scope) (name : String) : Option String :=
  (s.scopes.get? scope).bind fun values => values.get? name

/-- The scope whose property a declaration in the given scope sees. -/
def locate? (s : PropertySet) (scope : Scope) (name : String) : Option Scope :=
  if (s.get? scope name).isSome then some scope
  else if (s.get? .root name).isSome then some .root
  else none

/-- The properties with their values, scope by scope. -/
def toList (s : PropertySet) : List (Scope × String × String) :=
  s.scopes.entries.flatMap fun (scope, values) =>
    values.entries.map fun (name, value) => (scope, name, value)

/-- The number of properties. -/
def size (s : PropertySet) : Nat :=
  s.scopes.entries.foldl (fun n (_, values) => n + values.size) 0

end PropertySet

end MavenUpgrade

import MavenUpgrade.Manifest.Basic

/-!
# Drafts of a manifest

A manifest while its document is gone through, one declaration after the other. A declaration on a
package that was met in the same place before is left out. Any other one becomes the next
requirement: its properties are noted under its index, and its index under each of them.
-/

namespace MavenUpgrade

/-- Which requirements refer to which properties, kept for both sides. -/
structure PropertyGraph where
  /-- The indices of the requirements that refer to a property. -/
  members : OrderedMap PropertyRef (List Nat)
  /-- The properties that each requirement refers to, by its index. -/
  refs : List (List PropertyRef)
  deriving DecidableEq

namespace PropertyGraph

/-- The graph without requirements. -/
def empty : PropertyGraph := ⟨.empty, []⟩

/-- The indices of the requirements that refer to a property. -/
def membersOf (g : PropertyGraph) (p : PropertyRef) : List Nat :=
  (g.members.get? p).getD []

/-- The properties that the requirement at an index refers to. -/
def refsAt (g : PropertyGraph) (index : Nat) : List PropertyRef :=
  (g.refs[index]?).getD []

/-- The properties that requirements refer to, in the order of their first use. -/
def properties (g : PropertyGraph) : List PropertyRef :=
  g.members.keys

/-- Notes an index as the last one under a property. -/
def note (index : Nat) (members : OrderedMap PropertyRef (List Nat)) (p : PropertyRef) :
    OrderedMap PropertyRef (List Nat) :=
  members.insert p ((members.get? p).getD [] ++ [index])

/-- Adds a requirement with its index and the properties that it refers to. -/
def add (g : PropertyGraph) (index : Nat) (refs : List PropertyRef) : PropertyGraph where
  members := refs.foldl (note index) g.members
  refs := (g.refs.rightpad (index + 1) []).set index refs

end PropertyGraph

/-- A manifest as far as the declarations of its document have been taken up. -/
structure Draft where
  /-- The packages that were met, with their places. -/
  seen : List (Package × Origin)
  requirements : List Requirement
  graph : PropertyGraph

namespace Draft

/-- The draft before any declaration. -/
def empty : Draft := ⟨[], [], .empty⟩

/-- Takes up a declaration. -/
def add (env : Environment) (s : Draft) (d : DependencyDeclaration) : Draft :=
  if (d.package, d.origin) ∈ s.seen then s
  else
    { seen := (d.package, d.origin) :: s.seen
      requirements := s.requirements ++ [Manifest.requirementOf env d]
      graph := s.graph.add s.requirements.length (env.refs d.origin.scope d.declared) }

/-- The draft of a document when all its declarations have been taken up. -/
def ofPom (pom : Pom) : Draft :=
  pom.dependencies.foldl (add (Manifest.environmentOf pom)) empty

end Draft

end MavenUpgrade

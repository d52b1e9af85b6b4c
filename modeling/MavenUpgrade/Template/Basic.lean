import MavenUpgrade.Template.Placeholder

/-!
# Templates

A text seen as literal pieces and placeholders in turn. Rendering a template writes values in the
place of its placeholders and leaves a placeholder without a value as it is.
-/

namespace MavenUpgrade

/-- A piece of a template. -/
inductive Segment where
  | literal (text : String)
  | placeholder (name : String)
  deriving DecidableEq, Repr

namespace Segment

/-- Whether a piece is a placeholder. -/
def isPlaceholder : Segment → Bool
  | literal _ => false
  | placeholder _ => true

/-- The name of a placeholder. -/
def name? : Segment → Option String
  | literal _ => none
  | placeholder name => some name

/-- The text of a piece when `value?` gives the values of the placeholders. -/
def fill (value? : String → Option String) : Segment → String
  | literal text => text
  | placeholder name => (value? name).getD (Placeholder.text name)

end Segment

/-- A text cut into literal pieces and placeholders. -/
structure Template where
  segments : List Segment
  deriving DecidableEq, Repr

/-- Values of placeholders, by name. -/
abbrev Bindings := List (String × String)

namespace Template

/-- The piece that a text without placeholders makes. -/
def literalPiece (cs : List Char) : List Segment :=
  if cs.isEmpty then [] else [.literal (String.ofList cs)]

/-- The pieces of a text. -/
def segmentsOf (cs : List Char) : List Segment :=
  match _h : Placeholder.first? cs with
  | some (before, name, rest) =>
    literalPiece before ++ .placeholder (String.ofList name) :: segmentsOf rest
  | none => literalPiece cs
termination_by cs.length
decreasing_by exact Placeholder.length_lt_of_first? _h

/-- The template that a text writes. -/
def ofText (text : String) : Template :=
  ⟨segmentsOf text.toList⟩

/-- The names of the placeholders, each where it first occurs. -/
def placeholders (t : Template) : List String :=
  distinct (t.segments.filterMap Segment.name?)

/-- Whether no placeholder is left. -/
def isLiteral (t : Template) : Bool :=
  t.segments.all fun s => !s.isPlaceholder

/-- The template with a fixed value for one placeholder. -/
def substitute (t : Template) (name value : String) : Template :=
  ⟨t.segments.map fun s => if s = .placeholder name then .literal value else s⟩

/-- The text of a template under values for its placeholders. -/
def render (t : Template) (values : Bindings) : String :=
  String.join (t.segments.map (Segment.fill fun name => values.lookup name))

/-- Whether somewhere two placeholders follow each other. -/
def hasAdjacent (t : Template) : Bool :=
  go t.segments
where
  /-- Whether two placeholders of a list follow each other. -/
  go : List Segment → Bool
    | .placeholder _ :: .placeholder _ :: _ => true
    | _ :: rest => go rest
    | [] => false

end Template

end MavenUpgrade

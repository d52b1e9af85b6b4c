import MavenUpgrade.Template.Basic

/-!
# Matching templates

Matching looks for non-empty values of the placeholders under which a template renders to a given
text. A name has one value throughout. Of several answers the one is chosen that gives the
leftmost placeholder its shortest value, then the next one, and so on.

A text of more than 128 bytes matches no template, and neither does any text match a template in
which two placeholders follow each other.
-/

namespace MavenUpgrade.Template

/-- The most bytes a text may have to be matched. -/
def maxTargetBytes : Nat := 128

/-- What follows the text `head` in a text that begins with it. -/
def afterPrefix? (head target : List Char) : Option (List Char) :=
  if head.isPrefixOf target then some (target.drop head.length) else none

/-- Whether a text begins with the first of the pieces, where that is a literal. -/
def beginsWithLiteral : List Segment → List Char → Bool
  | .literal text :: _, target => text.toList.isPrefixOf target
  | _, _ => true

/--
The bindings under which the pieces render to the target, given those of the pieces before. A
placeholder that is not bound yet takes the shortest value that leaves an answer for the rest.
Values that the next literal does not follow are passed over without a look at the rest.
-/
def matchFrom : List Segment → List Char → Bindings → Option Bindings
  | [], target, bound => if target.isEmpty then some bound else none
  | .literal text :: rest, target, bound =>
    (afterPrefix? text.toList target).bind fun target => matchFrom rest target bound
  | .placeholder name :: rest, target, bound =>
    match bound.lookup name with
    | some value =>
      (afterPrefix? value.toList target).bind fun target => matchFrom rest target bound
    | none =>
      (List.range target.length).findSome? fun n =>
        if beginsWithLiteral rest (target.drop (n + 1)) then
          matchFrom rest (target.drop (n + 1))
            (bound ++ [(name, String.ofList (target.take (n + 1)))])
        else none

/-- The preferred values under which a template renders to a text. -/
def matches? (t : Template) (target : String) : Option Bindings :=
  if maxTargetBytes < target.utf8ByteSize || t.hasAdjacent then none
  else matchFrom t.segments target.toList []

end MavenUpgrade.Template

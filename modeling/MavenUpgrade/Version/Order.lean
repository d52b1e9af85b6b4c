import MavenUpgrade.Version.Part

/-!
# The order of versions

Two sequences of parts are compared from the left. In one place a number is above a nested list
and a nested list above a qualifier; numbers compare by value, qualifiers by their order, and
nested lists by what they hold. Where one sequence has ended, the other is compared with the
missing part, which weighs as much as zero or a plain release.
-/

namespace MavenUpgrade.Part

/-- Compares the first part of a nested list with a missing part. -/
def compareHeadWithNone : List Part → Ordering
  | [] => .eq
  | number n :: _ => compare n 0
  | qualifier q :: _ => compare q .release
  | nest :: ps => compareHeadWithNone ps

/--
Compares the parts with missing ones. Of a nested list only the first part counts, since a list
as a whole stands against one missing part.
-/
def compareWithNone : List Part → Ordering
  | [] => .eq
  | number n :: ps => (compare n 0).then (compareWithNone ps)
  | qualifier q :: ps => (compare q .release).then (compareWithNone ps)
  | nest :: ps => compareHeadWithNone ps

/-- The order of two sequences of parts. -/
def compareParts : List Part → List Part → Ordering
  | [], qs => (compareWithNone qs).swap
  | p :: ps, [] => compareWithNone (p :: ps)
  | number m :: ps, number n :: qs => (compare m n).then (compareParts ps qs)
  | qualifier p :: ps, qualifier q :: qs => (compare p q).then (compareParts ps qs)
  | nest :: ps, nest :: qs => compareParts ps qs
  | number _ :: _, _ :: _ => .gt
  | _ :: _, number _ :: _ => .lt
  | nest :: _, qualifier _ :: _ => .gt
  | qualifier _ :: _, nest :: _ => .lt

end MavenUpgrade.Part

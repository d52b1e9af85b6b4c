import MavenUpgrade.Version.Token

/-!
# Parts of a version

A version is a sequence of numbers and qualifiers. A hyphen, or a digit next to a character of
another kind, opens a nested list that holds everything up to the end of the version, so a mark
where each list opens is enough to tell the nesting: `1.0-rc2` is `1 0 ⟨rc ⟨2`.
-/

namespace MavenUpgrade

/-- A textual part of a version. The known ones are listed in ascending order. -/
inductive Qualifier where
  | alpha
  | beta
  | milestone
  | rc
  | snapshot
  /-- A plain release, which is also what a version without a qualifier is. -/
  | release
  | sp
  /-- Any other text; these come last, in the order of their texts. -/
  | other (text : String)
  deriving DecidableEq, Repr

namespace Qualifier

/-- The place of a qualifier among the known ones. -/
def rank : Qualifier → Nat
  | alpha => 0
  | beta => 1
  | milestone => 2
  | rc => 3
  | snapshot => 4
  | release => 5
  | sp => 6
  | other _ => 7

/-- The text that orders two qualifiers of the same rank. -/
def key : Qualifier → String
  | other text => text
  | _ => ""

instance : Ord Qualifier where
  compare p q := (compare p.rank q.rank).then (compare p.key q.key)

/-- Whether a qualifier marks a version that comes before its release. -/
def isPrerelease (q : Qualifier) : Bool :=
  q.rank < release.rank

/-- The qualifiers that have a name, with their other spellings. -/
def named : List (List Char × Qualifier) :=
  [("alpha".toList, alpha), ("beta".toList, beta), ("milestone".toList, milestone),
    ("rc".toList, rc), ("cr".toList, rc), ("snapshot".toList, snapshot), ("ga".toList, release),
    ("final".toList, release), ("release".toList, release), ("sp".toList, sp)]

/-- The one-letter names, which count only in front of a digit. -/
def abbreviated : List (List Char × Qualifier) :=
  [(['a'], alpha), (['b'], beta), (['m'], milestone)]

/-- The qualifier that a lowercase word stands for. -/
def ofWord (word : List Char) (beforeDigit : Bool) : Qualifier :=
  let names := if beforeDigit then abbreviated ++ named else named
  (names.lookup word).getD (other (String.ofList word))

end Qualifier

/-- A part of a version. -/
inductive Part where
  | number (value : Nat)
  | qualifier (value : Qualifier)
  /-- The mark where a nested list opens; the list extends to the end of the version. -/
  | nest
  deriving DecidableEq, Repr

namespace Part

/-- The value of a run of ASCII digits. -/
def digitsValue (run : List Char) : Nat :=
  run.foldl (fun n d => 10 * n + (d.toNat - '0'.toNat)) 0

/--
The parts that a sequence of tokens stands for. `joined` says that a number or a word comes
directly before: then a separator only ends it, and a further number or word opens a nested
list. Where it does not, a separator stands for a missing number, which counts as zero.
-/
def ofTokens (joined : Bool) : List Token → List Part
  | [] => []
  | .dot :: ts => (if joined then [] else [number 0]) ++ ofTokens false ts
  | .dash :: ts => (if joined then [] else [number 0]) ++ nest :: ofTokens false ts
  | .digits run :: ts =>
    (if joined then [nest] else []) ++ number (digitsValue run) :: ofTokens true ts
  | .word run :: ts =>
    (if joined then [nest] else []) ++
      qualifier (Qualifier.ofWord run (Token.beginDigits ts)) :: ofTokens true ts

/-- Whether a part has no weight of its own: zero, or a plain release. -/
def isNull : Part → Bool
  | number n => n == 0
  | qualifier q => q == .release
  | nest => false

/-- Whether a list ends here or goes on with a nested list only. -/
def listEnds : List Part → Bool
  | [] => true
  | nest :: _ => true
  | _ :: _ => false

/--
Puts a part in front of normalised parts. A part without weight is dropped at the end of its
list, also in front of a nested list, and a nested list is dropped when nothing is left in it.
-/
def prepend (p : Part) (ps : List Part) : List Part :=
  if p.isNull && listEnds ps then ps
  else if p = nest && ps.isEmpty then []
  else p :: ps

/-- The parts without those that have no weight at the end of a list, and without empty lists. -/
def normalise (ps : List Part) : List Part :=
  ps.foldr prepend []

end Part

end MavenUpgrade

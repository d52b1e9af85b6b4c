import MavenUpgrade.Text.Blank
import MavenUpgrade.Text.Lowercase
import MavenUpgrade.Version.Order

/-!
# Versions

Every text is a version: the parts are read from its lowercase form without the blanks at its
two ends. This module holds what the rest of the library asks of a version text: its order, its
major component, and whether it is a prerelease.
-/

namespace MavenUpgrade

/-- A version, as its normalised parts. -/
structure Version where
  parts : List Part
  deriving DecidableEq, Repr

namespace Version

/-- The form of a version text that is read: trimmed and in lowercase. -/
def canonicalText (text : String) : List Char :=
  Text.lower (Text.trim text.toList)

/-- The version that a text names. -/
def ofText (text : String) : Version :=
  ⟨Part.normalise (Part.ofTokens false (Token.ofChars (canonicalText text)))⟩

instance : Ord Version where
  compare v w := Part.compareParts v.parts w.parts

/-- The order of two version texts. -/
def compareText (a b : String) : Ordering :=
  compare (ofText a) (ofText b)

/-- Whether a version text has a qualifier that comes before a plain release. -/
def isPrerelease (text : String) : Bool :=
  (ofText text).parts.any fun
    | .qualifier q => q.isPrerelease
    | _ => false

end Version

/-- The leading component of a version. -/
inductive Major where
  | number (value : Nat)
  | word (text : String)
  deriving DecidableEq, Repr

namespace Major

/-- Whether a character separates the components of a version. -/
def isSeparator (c : Char) : Bool :=
  c == '.' || c == '-'

/--
The leading component of a version text: the value of the digits it begins with, or else what
stands before its first separator.
-/
def ofText (text : String) : Major :=
  let cs := Version.canonicalText text
  let run := cs.takeWhile Char.isDigit
  if run.isEmpty then word (String.ofList (cs.takeWhile fun c => !isSeparator c))
  else number (Part.digitsValue run)

/-- A leading component as text. -/
def text : Major → String
  | number n => Nat.repr n
  | word w => w

end Major

/-- Whether two version texts differ in their leading component. -/
def isMajorBump (before after : String) : Bool :=
  Major.ofText before != Major.ofText after

end MavenUpgrade

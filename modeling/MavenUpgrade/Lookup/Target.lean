import MavenUpgrade.Text.Lines

/-!
# Request targets

The path and query that a request for an address asks for. Characters that may not stand in an
address are written as the bytes of their encoding, each as a percent sign and two hexadecimal
digits; the steps `.` and `..` of a path are taken, and what follows a number sign is left out.
-/

namespace MavenUpgrade.Target

/-- Whether a character has to be written as bytes wherever it stands in an address. -/
def isUnsafe (c : Char) : Bool :=
  c.toNat ≤ 0x20 || 0x7F ≤ c.toNat || c == '"' || c == '#' || c == '<' || c == '>'

/-- Whether a character has to be written as bytes in a path. -/
def isUnsafeInPath (c : Char) : Bool :=
  isUnsafe c || c == '?' || c == '\x60' || c == '{' || c == '}'

/-- Whether a character has to be written as bytes in a query. -/
def isUnsafeInQuery (c : Char) : Bool :=
  isUnsafe c || c == '\''

/-- The written form of a byte. -/
def escapeByte (b : UInt8) : List Char :=
  ['%', (Nat.digitChar (b.toNat / 16)).toUpper, (Nat.digitChar (b.toNat % 16)).toUpper]

/-- The written form of a text in which the characters that `mustEscape` accepts become bytes. -/
def escape (mustEscape : Char → Bool) (cs : List Char) : List Char :=
  cs.flatMap fun c =>
    if mustEscape c then (String.utf8EncodeChar c).flatMap escapeByte else [c]

/-- Whether a character is left out of an address wherever it stands. -/
def isIgnored (c : Char) : Bool :=
  c == '\t' || c == '\n' || c == '\r'

/-- The ways to write the step that stays where it is. -/
def staySteps : List (List Char) :=
  [".", "%2e"].map String.toList

/-- The ways to write the step that goes one segment back. -/
def backSteps : List (List Char) :=
  ["..", ".%2e", "%2e.", "%2e%2e"].map String.toList

/-- The segments of a path, where `taken` holds those before in reverse; a step that the path ends
with leaves an empty segment. -/
def takeSteps (taken : List (List Char)) : List (List Char) → List (List Char)
  | [] => taken.reverse
  | segment :: rest =>
    let lower := segment.map Char.toLower
    if backSteps.contains lower then
      takeSteps (if rest.isEmpty then [] :: taken.drop 1 else taken.drop 1) rest
    else if staySteps.contains lower then
      takeSteps (if rest.isEmpty then [] :: taken else taken) rest
    else takeSteps (segment :: taken) rest

/-- Whether a character separates the segments of a path. -/
def isSlash (c : Char) : Bool :=
  c == '/' || c == '\\'

/-- The written form of the path of an address; an empty path is a slash. -/
def path (cs : List Char) : List Char :=
  let segments := match Text.splitWhere isSlash cs with
    | [] :: rest => rest
    | segments => segments
  '/' :: ['/'].intercalate ((takeSteps [] segments).map (escape isUnsafeInPath))

/-- The target of a request for an address, given from its path on. -/
def ofPath (cs : List Char) : String :=
  let cs := cs.takeWhile (· != '#')
  let query := cs.dropWhile (· != '?')
  String.ofList (path (cs.takeWhile (· != '?')) ++
    match query with
    | mark :: text => mark :: escape isUnsafeInQuery text
    | [] => [])

end MavenUpgrade.Target

import MavenUpgrade.Lookup.Target
import MavenUpgrade.Text.Digits

/-!
# Addresses

An address that a request can be made for names a scheme, a host and the target of the request.
Reading it settles how it is written: scheme and host in small letters, no user, and no port that
goes without saying.
-/

namespace MavenUpgrade

/-- An address that a request can be made for. -/
structure Address where
  scheme : String
  /-- The host, with its port. -/
  host : String
  /-- The path and query. -/
  target : String
  deriving DecidableEq, Repr

/-- Why no request can be made for a text. -/
inductive AddressFault where
  /-- It is no address of a host. -/
  | malformed
  /-- It is an address of another scheme. -/
  | otherScheme (address : String)
  deriving DecidableEq, Repr

namespace Address

/-- The written form of an address. -/
def text (a : Address) : String :=
  a.scheme ++ "://" ++ a.host ++ a.target

/-- The schemes that requests are made in, with the ports that are not written. -/
def schemes : List (String × String) := [("http", "80"), ("https", "443")]

/-- Whether a character may stand in a scheme. -/
def isSchemeChar (c : Char) : Bool :=
  c.isAlphanum || c == '+' || c == '-' || c == '.'

/-- The scheme that a text begins with, and what follows its colon. -/
def cutScheme? (cs : List Char) : Option (String × List Char) :=
  match cs.takeWhile isSchemeChar, cs.dropWhile isSchemeChar with
  | c :: scheme, ':' :: rest =>
    if c.isAlpha then some (String.ofList ((c :: scheme).map Char.toLower), rest) else none
  | _, _ => none

/-- Whether a character ends a host. -/
def endsHost (c : Char) : Bool :=
  Target.isSlash c || c == '?' || c == '#'

/-- Whether a character may stand in the name of a host. -/
def isHostChar (c : Char) : Bool :=
  0x20 < c.toNat && c.toNat ≠ 0x7F && !(['<', '>', '^', '|', '%', '[', ']', ':'].contains c)

/-- The name of a host and its port; a name in brackets may hold colons. -/
def cutPort (cs : List Char) : List Char × List Char :=
  match cs with
  | '[' :: _ =>
    let name := cs.takeWhile (· != ']')
    (name ++ (cs.drop name.length).take 1, cs.drop (name.length + 1))
  | _ => (cs.takeWhile (· != ':'), cs.dropWhile (· != ':'))

/-- The written form of a port behind a colon, where `unwritten` is the one that is not written. -/
def port? (unwritten : String) : List Char → Option String
  | [] | [':'] => some ""
  | ':' :: digits =>
    match Text.digitsValue? 10 digits with
    | some n =>
      if n < 0x10000 then some (if Nat.repr n = unwritten then "" else ":" ++ Nat.repr n) else none
    | none => none
  | _ => none

/-- The written form of a host, with its port. -/
def host? (unwritten : String) (cs : List Char) : Option String :=
  let (name, port) := cutPort (cs.reverse.takeWhile (· != '@')).reverse
  let plain := name.head? = some '[' ∨ name.all isHostChar
  if name.isEmpty ∨ ¬ plain then none
  else (port? unwritten port).map fun port => String.ofList (name.map Char.toLower) ++ port

/-- The address that a text writes. -/
def read (text : String) : Except AddressFault Address :=
  let cs := text.toList.dropWhile (·.toNat ≤ 0x20) |>.filter (!Target.isIgnored ·)
  match cutScheme? cs with
  | none => .error .malformed
  | some (scheme, rest) =>
    match schemes.lookup scheme with
    | none => .error (.otherScheme (String.ofList cs))
    | some unwritten =>
      let rest := rest.dropWhile Target.isSlash
      match host? unwritten (rest.takeWhile (!endsHost ·)) with
      | some host => .ok ⟨scheme, host, Target.ofPath (rest.dropWhile (!endsHost ·))⟩
      | none => .error .malformed

end Address

end MavenUpgrade

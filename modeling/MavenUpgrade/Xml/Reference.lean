import MavenUpgrade.Text.Digits
import MavenUpgrade.Xml.Char

/-!
# Character data

What a piece of character data says: references stand for their characters, and each of the three
spellings of a line break stands for a line feed. A character that a reference writes stands as it
is, and so does the one after it.
-/

namespace MavenUpgrade.Xml

/-- The references with a name. -/
def namedReferences : List (List Char × Char) :=
  [("quot".toList, '"'), ("amp".toList, '&'), ("apos".toList, '\''), ("lt".toList, '<'),
    ("gt".toList, '>')]

/--
The character with a given number. A number that fits in four bytes and belongs to no character
stands for the replacement character; a character that XML excludes cannot be written.
-/
def numberedChar? (n : Nat) : Option Char :=
  let c := if n < 0xD800 ∨ (0xDFFF < n ∧ n < 0x110000) then Char.ofNat n else '\ufffd'
  if n < 0x100000000 && isXmlChar c then some c else none

/-- The character that a reference stands for, given what stands between its marks. -/
def referenced? : List Char → Option Char
  | '#' :: 'x' :: digits => (Text.digitsValue? 16 digits).bind numberedChar?
  | '#' :: digits => (Text.digitsValue? 10 digits).bind numberedChar?
  | name => namedReferences.lookup name

/-- The character that a reference stands for, and what follows the reference. -/
def reference? (cs : List Char) : Option (Char × List Char) :=
  match cs.dropWhile (· != ';') with
  | _ :: rest => (referenced? (cs.takeWhile (· != ';'))).map (·, rest)
  | [] => none

theorem length_lt_of_reference? {cs rest : List Char} {c : Char}
    (h : reference? cs = some (c, rest)) : rest.length < cs.length := by
  unfold reference? at h
  split at h
  · next hd =>
    obtain ⟨_, _, he⟩ := Option.map_eq_some_iff.mp h
    obtain ⟨rfl, rfl⟩ := Prod.mk.inj he
    have := (List.dropWhile_sublist (l := cs) (· != ';')).length_le
    rw [hd, List.length_cons] at this
    omega
  · simp at h

/--
Writes a character behind text that is given backwards. A carriage return waits there until the
next character or the end of the data shows which line break it belongs to.
-/
def pushChar (written : List Char) (c : Char) (last : Bool) : List Char :=
  match written with
  | '\r' :: before =>
    if c = '\n' then '\n' :: before
    else if last && c == '\r' then '\n' :: '\n' :: before
    else c :: '\n' :: before
  | _ => if last && c == '\r' then '\n' :: written else c :: written

/--
The rest of character data, behind text that is given backwards. `literal` says that the next
character stands as it is, because a reference comes directly before it.
-/
def readData (written : List Char) (literal : Bool) (cs : List Char) : Option (List Char) :=
  match cs with
  | [] => some written.reverse
  | c :: rest =>
    if c = '&' then
      match _h : reference? rest with
      | some (r, more) => readData (r :: written) true more
      | none => none
    else if literal then readData (c :: written) false rest
    else readData (pushChar written c rest.isEmpty) false rest
termination_by cs.length
decreasing_by
  · have := length_lt_of_reference? _h
    simp only [List.length_cons]
    omega
  · simp
  · simp

/-- What character data says. -/
def data? (raw : List Char) : Option (List Char) :=
  readData [] false raw

/-- The text of literal character data behind text that is given backwards; only line breaks are read. -/
def readCdata (written : List Char) : List Char → List Char
  | [] => written.reverse
  | c :: rest => readCdata (pushChar written c rest.isEmpty) rest

/-- What a section of literal character data says. -/
def cdataText (content : List Char) : List Char :=
  readCdata [] content

/-- The value of an attribute: references stand for their characters, line breaks for blanks. -/
def readAttributeValue (written : List Char) (cs : List Char) : Option (List Char) :=
  match cs with
  | [] => some written.reverse
  | c :: rest =>
    if c = '&' then
      match _h : reference? rest with
      | some (r, more) => readAttributeValue (r :: written) more
      | none => none
    else if c = '\r' ∧ rest.head? = some '\n' then readAttributeValue written rest
    else readAttributeValue ((if isSpace c then ' ' else c) :: written) rest
termination_by cs.length
decreasing_by
  · have := length_lt_of_reference? _h
    simp only [List.length_cons]
    omega
  · simp
  · simp

end MavenUpgrade.Xml

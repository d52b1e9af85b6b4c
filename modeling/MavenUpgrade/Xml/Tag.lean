import MavenUpgrade.Text.Lines
import MavenUpgrade.Xml.Reference

/-!
# Tags

What stands between the brackets of a tag: the name of the element, and in a start tag its
attributes, each after a blank, with its value in quotes. The tag of an empty element ends in a
slash. The declaration that may open a document is written like a tag and read here too.
-/

namespace MavenUpgrade.Xml

/-- A name with the prefix of its namespace; without one the prefix is empty. -/
structure Name where
  space : String
  base : String
  deriving DecidableEq, Repr

/-- An attribute with its value as written. -/
structure Attribute where
  name : Name
  raw : List Char
  deriving DecidableEq, Repr

/-- A tag. -/
inductive Tag where
  /-- A start tag, or the tag of an empty element. -/
  | opening (name : Name) (attributes : List Attribute) (isEmpty : Bool)
  | closing (name : Name)
  deriving DecidableEq, Repr

/-- Whether a text begins with a character that may begin a name. -/
def beginsName : List Char → Bool
  | c :: _ => isNameStart c
  | [] => false

/-- The name that a text begins with, and what follows it. -/
def readName? (cs : List Char) : Option (Name × List Char) :=
  match Text.splitWhere (· == ':') (cs.takeWhile isNameChar) with
  | [base] =>
    if beginsName base then some (⟨"", String.ofList base⟩, cs.dropWhile isNameChar) else none
  | [space, base] =>
    if beginsName base && (space.isEmpty || beginsName space) then
      some (⟨String.ofList space, String.ofList base⟩, cs.dropWhile isNameChar)
    else none
  | _ => none

theorem length_le_of_readName? {cs rest : List Char} {name : Name}
    (h : readName? cs = some (name, rest)) : rest.length ≤ cs.length := by
  unfold readName? at h
  have hd := (List.dropWhile_sublist (l := cs) isNameChar).length_le
  split at h
  · split at h
    · obtain ⟨_, rfl⟩ := Prod.mk.inj (Option.some.inj h)
      exact hd
    · simp at h
  · split at h
    · obtain ⟨_, rfl⟩ := Prod.mk.inj (Option.some.inj h)
      exact hd
    · simp at h
  · simp at h

/-- The value in quotes that a text begins with, and what follows it. -/
def readQuoted? : List Char → Option (List Char × List Char)
  | [] => none
  | quote :: cs =>
    if quote = '"' ∨ quote = '\'' then
      match cs.dropWhile (· != quote) with
      | _ :: rest =>
        if (cs.takeWhile (· != quote)).contains '<' then none
        else some (cs.takeWhile (· != quote), rest)
      | [] => none
    else none

theorem length_lt_of_readQuoted? {cs raw rest : List Char}
    (h : readQuoted? cs = some (raw, rest)) : rest.length < cs.length := by
  cases cs with
  | nil => simp [readQuoted?] at h
  | cons quote cs =>
    rw [readQuoted?] at h
    split at h
    · split at h
      · next hd =>
        split at h
        · simp at h
        · obtain ⟨_, rfl⟩ := Prod.mk.inj (Option.some.inj h)
          have := (List.dropWhile_sublist (l := cs) (· != quote)).length_le
          rw [hd] at this
          simp only [List.length_cons] at this ⊢
          omega
      · simp at h
    · simp at h

/-- The attribute that a text begins with, and what follows it. -/
def readAttribute? (cs : List Char) : Option (Attribute × List Char) :=
  match readName? cs with
  | some (name, afterName) =>
    match afterName.dropWhile isSpace with
    | '=' :: afterSign =>
      (readQuoted? (afterSign.dropWhile isSpace)).map fun (raw, rest) => (⟨name, raw⟩, rest)
    | _ => none
  | none => none

theorem length_lt_of_readAttribute? {cs rest : List Char} {a : Attribute}
    (h : readAttribute? cs = some (a, rest)) : rest.length < cs.length := by
  unfold readAttribute? at h
  split at h
  · next name afterName hn =>
    split at h
    · next afterSign hs =>
      obtain ⟨⟨raw, r⟩, hq, he⟩ := Option.map_eq_some_iff.mp h
      obtain ⟨_, rfl⟩ := Prod.mk.inj he
      have l₁ := length_le_of_readName? hn
      have l₂ := (List.dropWhile_sublist (l := afterName) isSpace).length_le
      have l₃ := (List.dropWhile_sublist (l := afterSign) isSpace).length_le
      have l₄ := length_lt_of_readQuoted? hq
      rw [hs, List.length_cons] at l₂
      omega
    · simp at h
  · simp at h

/-- The attributes of a start tag, and whether the tag ends in a slash. -/
def readAttributes? (cs : List Char) : Option (List Attribute × Bool) :=
  match _hs : cs.dropWhile isSpace with
  | [] => some ([], false)
  | ['/'] => some ([], true)
  | next =>
    if cs.head?.any isSpace then
      match _ha : readAttribute? next with
      | some (a, rest) => (readAttributes? rest).map fun (as, isEmpty) => (a :: as, isEmpty)
      | none => none
    else none
termination_by cs.length
decreasing_by
  have l₁ := length_lt_of_readAttribute? _ha
  have l₂ := (List.dropWhile_sublist (l := cs) isSpace).length_le
  rw [_hs] at l₂
  omega

/-- The tag with the given text between its brackets. -/
def Tag.read? (content : List Char) : Option Tag :=
  match content with
  | '/' :: cs =>
    match readName? cs with
    | some (name, rest) => if rest.all isSpace then some (closing name) else none
    | none => none
  | cs =>
    match readName? cs with
    | some (name, rest) => (readAttributes? rest).map fun (as, isEmpty) => opening name as isEmpty
    | none => none

/-! ## The declaration of a document -/

/-- What a document declaration begins with; the blank belongs to it. -/
def declarationOpening : List Char := "<?xml ".toList

/-- What follows an attribute of the declaration when its name begins with the given text. -/
def afterDeclared? (name : List Char) (cs : List Char) : Option (List Char) :=
  if name.isPrefixOf cs then (readAttribute? cs).map (·.2) else none

/-- What follows the blanks between two attributes of the declaration. -/
def afterGap? (cs : List Char) : Option (List Char) :=
  if cs.head?.any isSpace then some (cs.dropWhile isSpace)
  else if cs.head? = some '?' then some cs
  else none

/--
Whether the text of a document declaration is well formed: it names a version, and may name an
encoding and whether the document stands alone, in this order.
-/
def isDeclaration (content : List Char) : Bool :=
  let start := (content.drop "?xml".length).dropWhile isSpace
  let rest := do
    let afterVersion ← afterDeclared? "version".toList start >>= afterGap?
    let afterEncoding ←
      if "encoding".toList.isPrefixOf afterVersion then
        afterDeclared? "encoding".toList afterVersion >>= afterGap?
      else some afterVersion
    if "standalone".toList.isPrefixOf afterEncoding then
      afterDeclared? "standalone".toList afterEncoding
    else some afterEncoding
  (rest.map (·.dropWhile isSpace)) == some ['?']

end MavenUpgrade.Xml

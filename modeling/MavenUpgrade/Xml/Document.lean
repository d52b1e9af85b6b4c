import MavenUpgrade.Xml.Piece
import MavenUpgrade.Xml.Tag

/-!
# XML documents

The tree of an XML text. Elements are known by their names without namespace prefixes, and by the
offsets of their first characters. Character data and literal sections that follow each other
form one text, whose source is that of its first piece.

A text is a document when its tags nest, it has one root with nothing but comments, instructions
and blanks around it, every prefix is declared, no element repeats an attribute, and every
reference has a meaning. A document type declaration is refused.
-/

namespace MavenUpgrade.Xml

/-- A node of a document. -/
inductive Node where
  /-- An element, with the offset of its first character. -/
  | element (start : Nat) (name : String) (children : List Node)
  /--
  A text: the offset and the source of its first piece, and what all its pieces say.
  -/
  | text (start : Nat) (source : List Char) (content : List Char)
  /-- A comment or an instruction. -/
  | aside

/-! ## Namespaces -/

/-- Namespaces by their prefixes. -/
abbrev Namespaces := List (String × String)

/-- The name of a namespace that the standard reserves. -/
def reservedNamespace (path : String) : String :=
  "http:" ++ "//www.w3.org/" ++ path

/-- The namespace of the prefix `xml`, which only attributes may have. -/
def xmlNamespace : String := reservedNamespace "XML/1998/namespace"

/-- The namespace of the declarations themselves. -/
def declarationNamespace : String := reservedNamespace "2000/xmlns/"

/--
The namespaces that attributes declare, behind those already read, and the names of the remaining
attributes. The value of every attribute must make sense. A prefix is declared at most once in an
element, and the reserved namespaces keep their names. To declare the prefix `xml` changes nothing.
-/
def declarations? (declared : Namespaces) (plain : List Name) :
    List Attribute → Option (Namespaces × List Name)
  | [] => some (declared, plain)
  | a :: as =>
    match readAttributeValue [] a.raw with
    | none => none
    | some value =>
      let value := String.ofList value
      if a.name.space = "xmlns" then
        if value = declarationNamespace then none
        else if (a.name.base = "xml") != (value = xmlNamespace) then none
        else if a.name.base = "xml" then declarations? declared plain as
        else if (declared.lookup a.name.base).isSome then none
        else declarations? (declared ++ [(a.name.base, value)]) plain as
      else if a.name.base = "xmlns" then
        if value = xmlNamespace ∨ value = declarationNamespace then none
        else declarations? declared plain as
      else declarations? declared (plain ++ [a.name]) as

/-- The namespace of the prefix of an attribute, if it has one. -/
def attributeNamespace? (known : Namespaces) (space : String) : Option String :=
  if space = "xml" then some xmlNamespace else known.lookup space

/-- The full name of an attribute: its namespace, if it has a prefix, and its name. -/
def fullName? (known : Namespaces) (name : Name) : Option (Option String × String) :=
  if name.space.isEmpty then some (none, name.base)
  else (attributeNamespace? known name.space).map fun uri => (some uri, name.base)

/-- The namespaces known inside an element, if its tag is well formed. -/
def enter? (known : Namespaces) (name : Name) (attributes : List Attribute) :
    Option Namespaces := do
  let (declared, plain) ← declarations? [] [] attributes
  let inside := declared ++ known
  let names ← plain.mapM (fullName? inside)
  if name.space = "xmlns" then none
  else if !name.space.isEmpty && (inside.lookup name.space).isNone then none
  else if names.Nodup then some inside
  else none

/-! ## Building the tree -/

/-- An element whose end tag has not come yet. -/
structure OpenElement where
  start : Nat
  name : Name
  /-- The namespaces known inside the element. -/
  known : Namespaces
  /-- The children so far, backwards. -/
  children : List Node

/-- What is known of a document after some of its pieces. -/
structure Progress where
  /-- The elements that are open, the innermost first. -/
  opened : List OpenElement
  root : Option Node

namespace Progress

/-- Adds a node to the innermost open element, or outside of every element. -/
def add (p : Progress) (node : Node) : Progress :=
  match p.opened with
  | e :: outer => { p with opened := { e with children := node :: e.children } :: outer }
  | [] => p

/-- Adds a text; it joins a text that it directly follows. -/
def addText (p : Progress) (start : Nat) (source content : List Char) : Progress :=
  match p.opened with
  | e :: outer =>
    match e.children with
    | .text start' source' content' :: before =>
      let joined := Node.text start' source' (content' ++ content)
      { p with opened := { e with children := joined :: before } :: outer }
    | _ => p.add (.text start source content)
  | [] => p

/-- Adds an element that is complete. -/
def addElement (p : Progress) (element : Node) : Progress :=
  match p.opened with
  | [] => { p with root := some element }
  | _ :: _ => p.add element

/-- Whether an element may begin: inside another one, or as the only root. -/
def mayOpen (p : Progress) : Bool :=
  !p.opened.isEmpty || p.root.isNone

/-- The namespaces known where the next element begins. -/
def known (p : Progress) : Namespaces :=
  match p.opened with
  | e :: _ => e.known
  | [] => []

/-- Takes in a tag that begins at the given offset. -/
def addTag? (p : Progress) (start : Nat) : Tag → Option Progress
  | .opening name attributes isEmpty =>
    if p.mayOpen then
      (enter? p.known name attributes).map fun inside =>
        if isEmpty then p.addElement (.element start name.base [])
        else { p with opened := ⟨start, name, inside, []⟩ :: p.opened }
    else none
  | .closing name =>
    match p.opened with
    | e :: outer =>
      if e.name = name then
        some (({ p with opened := outer } : Progress).addElement
          (.element e.start e.name.base e.children.reverse))
      else none
    | [] => none

/-- Whether the two hyphens of a comment's end stand in it before. -/
def hasDoubleHyphen : List Char → Bool
  | ['-'] => true
  | '-' :: '-' :: _ => true
  | _ :: cs => hasDoubleHyphen cs
  | [] => false

/-- Whether the mark that ends a literal section stands in character data. -/
def endsCdata : List Char → Bool
  | ']' :: ']' :: '>' :: _ => true
  | _ :: cs => endsCdata cs
  | [] => false

/-- Whether an instruction has a target and is no document declaration. -/
def isInstruction (content : List Char) : Bool :=
  beginsName content && !("xml ".toList.isPrefixOf content)

/-- Takes in a piece that begins at the given offset. -/
def addPiece? (p : Progress) (start : Nat) : Piece → Option Progress
  | .text raw =>
    if p.opened.isEmpty then (if raw.all isSpace then some p else none)
    else if endsCdata raw then none
    else (data? raw).map fun content => p.addText start raw content
  | .cdata content =>
    if p.opened.isEmpty then none
    else some (p.addText start (Piece.cdata content).chars (cdataText content))
  | .comment content => if hasDoubleHyphen content then none else some (p.add .aside)
  | .instruction content => if isInstruction content then some (p.add .aside) else none
  | .tag content => (Tag.read? content).bind fun tag => p.addTag? start tag

/-- Takes in pieces of which the first begins at the given offset. -/
def addPieces? (p : Progress) (start : Nat) : List Piece → Option Progress
  | [] => some p
  | piece :: rest =>
    (p.addPiece? start piece).bind fun p => p.addPieces? (start + piece.chars.length) rest

/-- The root of a document that is complete. -/
def root? (p : Progress) : Option Node :=
  if p.opened.isEmpty then p.root else none

end Progress

/-- The mark that may stand before a text to tell its encoding. -/
def byteOrderMark : Char := '\ufeff'

/-- The offset at which the pieces of a document begin, and the text from there on. -/
def body? (cs : List Char) : Option (Nat × List Char) :=
  let marked := cs.head? = some byteOrderMark
  let cs := if marked then cs.drop 1 else cs
  let offset := if marked then 1 else 0
  if declarationOpening.isPrefixOf cs then
    match cutTag? none (cs.drop 1) with
    | some (content, rest) =>
      if isDeclaration content then some (offset + content.length + 2, rest) else none
    | none => none
  else some (offset, cs)

/-- The root of the document that a text writes. -/
def readDocument? (cs : List Char) : Option Node := do
  if cs.all isXmlChar then
    let (start, rest) ← body? cs
    let pieces ← Piece.cut? rest
    let progress ← Progress.addPieces? ⟨[], none⟩ start pieces
    progress.root?
  else none

end MavenUpgrade.Xml

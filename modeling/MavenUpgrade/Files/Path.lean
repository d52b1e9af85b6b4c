import MavenUpgrade.Text.Lines
import MavenUpgrade.Text.Utf8

/-!
# Paths

A path is a sequence of bytes whose pieces are separated by slashes; most paths are texts, but none
needs to be one. Empty pieces and single dots stay where they are, except at the start: there an
empty piece is the root, and a dot is the directory that the program runs in.
-/

namespace MavenUpgrade

/-- A path, by its bytes. -/
structure Path where
  bytes : List UInt8
  deriving DecidableEq, Repr

namespace Path

/-! ## Paths and texts -/

/-- The path that is written like this. -/
def ofText (text : String) : Path :=
  ⟨Text.encode text⟩

/-- The text that a path is, if it is one. -/
def text? (p : Path) : Option String :=
  Text.decode? p.bytes

/-- A path is a text. -/
def IsText (p : Path) : Prop :=
  ∃ text, p = ofText text

theorem text?_eq_some_iff {p : Path} {text : String} : p.text? = some text ↔ p = ofText text := by
  obtain ⟨bytes⟩ := p
  rw [text?, Text.decode?_eq_some_iff, ofText, mk.injEq]

theorem isSome_text?_iff {p : Path} : p.text?.isSome = true ↔ p.IsText := by
  rw [Option.isSome_iff_exists]
  exact exists_congr fun text => text?_eq_some_iff

/-- A path is shown as the text that it is; a path that is none is shown with a character in the
place of each fault. -/
def shown (p : Path) : String :=
  p.text?.getD (Text.decodeReplacing p.bytes)

theorem shown_ofText (text : String) : (ofText text).shown = text := by
  rw [shown, text?_eq_some_iff.mpr rfl, Option.getD_some]

/-- A path may end in a byte that begins no character. -/
example : (mk [0x61, 0xFF]).text? = none ∧ (mk [0x61, 0xFF]).shown = "a\ufffd" := by
  decide +kernel

/-! ## The pieces of a path -/

/-- A piece of a path: a name or a step. -/
abbrev Piece := List UInt8

/-- The byte between two pieces. -/
def slash : UInt8 := 0x2F

/-- The pieces of a path. -/
def pieces (p : Path) : List Piece :=
  Text.splitWhere (· == slash) p.bytes

/-- The path with the given pieces. -/
def ofPieces (pieces : List Piece) : Path :=
  ⟨[slash].intercalate pieces⟩

/-- Whether a path begins at the root. -/
def isAbsolute (p : Path) : Bool :=
  p.bytes.head? == some slash

/-- The path of a name in a directory. -/
def join (directory : Path) (name : String) : Path :=
  if directory.bytes.isEmpty || directory.bytes.getLast? == some slash then
    ⟨directory.bytes ++ Text.encode name⟩
  else ⟨directory.bytes ++ slash :: Text.encode name⟩

/-- The step that stays where it is. -/
def dot : Piece := Text.encode "."

/-- The step to the directory above. -/
def dots : Piece := Text.encode ".."

/-- Whether a piece after the first one stays where it is. -/
def isIdle (piece : Piece) : Bool :=
  piece.isEmpty || piece == dot

/-- The pieces without the idle ones at their end. -/
def dropIdle (pieces : List Piece) : List Piece :=
  (pieces.reverse.dropWhile isIdle).reverse

/-- The path of the directory that a path lies in, as written; the root lies in none. -/
def parent? (p : Path) : Option Path :=
  match p.pieces with
  | [] => none
  | first :: rest =>
    match dropIdle rest with
    | [] => if first.isEmpty then none else some ⟨[]⟩
    | body =>
      let kept := dropIdle body.dropLast
      if first.isEmpty && kept.isEmpty then some ⟨[slash]⟩
      else some (ofPieces (first :: kept))

/-- The path of the directory that a path lies in, a dot where it is the one that the program runs
in. -/
def directory (p : Path) : Path :=
  match p.parent? with
  | some parent => if parent.bytes.isEmpty then ⟨dot⟩ else parent
  | none => ⟨dot⟩

end Path

end MavenUpgrade

import MavenUpgrade.Collection.Distinct
import MavenUpgrade.Files.Basic

/-!
# File trees

A file system as a value: directories and files below a root, each by the names on the way to it. The
program runs in a directory of its own, the only one in the root.
-/

namespace MavenUpgrade

/-- A file tree. -/
structure FileTree where
  /-- The directories and files in the order of their creation; a file comes with its bytes. -/
  nodes : List (List Path.Piece × Option (List UInt8))
  deriving DecidableEq

namespace FileTree

/-- The directory that the program runs in. -/
def home : List Path.Piece := [Text.encode "home"]

/-- The tree without files. -/
def empty : FileTree := ⟨[(home, none)]⟩

/-- What stands at a place. -/
def kindAt? (t : FileTree) (place : List Path.Piece) : Option FileKind :=
  if place.isEmpty then some .directory
  else (t.nodes.lookup place).map fun content => if content.isSome then .file else .directory

/-- Where a piece of a path leads to. -/
def step? (t : FileTree) (place : List Path.Piece) (piece : Path.Piece) :
    Option (List Path.Piece) :=
  if t.kindAt? place = some .directory then
    if Path.isIdle piece then some place
    else if piece = Path.dots then some place.dropLast
    else if (t.kindAt? (place ++ [piece])).isSome then some (place ++ [piece])
    else none
  else none

/-- The place that a path leads to; the empty path leads nowhere. -/
def locate? (t : FileTree) (path : Path) : Option (List Path.Piece) :=
  if path.bytes.isEmpty then none
  else path.pieces.foldlM t.step? (if path.isAbsolute then [] else home)

/-- The bytes of the file that a path leads to. -/
def bytes? (t : FileTree) (path : Path) : Option (List UInt8) :=
  (t.locate? path).bind fun place => (t.nodes.lookup place).bind id

/-- The tree with a directory or file at a place, in the place of what was there. -/
def put (t : FileTree) (place : List Path.Piece) (content : Option (List UInt8)) : FileTree :=
  if (t.nodes.lookup place).isSome then
    ⟨t.nodes.map fun node => if node.1 = place then (place, content) else node⟩
  else ⟨t.nodes ++ [(place, content)]⟩

/-- The tree with a directory at each place on the way to the given one. -/
def putDirectories (t : FileTree) (place : List Path.Piece) : FileTree :=
  ((List.range place.length).map place.take).foldl
    (fun t above => if (t.kindAt? above).isSome then t else t.put above none) t

/-- The place of a file with the given path below the directory that the program runs in. -/
def placeOf (path : Path) : List Path.Piece :=
  home ++ path.pieces.filter fun piece => !Path.isIdle piece

/-- The tree with a directory or file at the given path, and the directories on the way to it. -/
def create (t : FileTree) (path : Path) (content : Option (List UInt8)) : FileTree :=
  (t.putDirectories (placeOf path)).put (placeOf path) content

/-- The tree without what stands at a path or below. -/
def remove (t : FileTree) (path : Path) : FileTree :=
  ⟨t.nodes.filter fun node => !(placeOf path).isPrefixOf node.1⟩

/-- The files below the directory that the program runs in, by path. -/
def files (t : FileTree) : List (Path × List UInt8) :=
  t.nodes.filterMap fun (place, content) =>
    content.map (Path.ofPieces (place.drop home.length), ·)

/-- The files that differ from those of an earlier tree, with their new bytes unless they are
gone. -/
def changesSince (t earlier : FileTree) : List (Path × Option (List UInt8)) :=
  let paths := distinct ((earlier.files ++ t.files).map Prod.fst)
  (paths.filter fun path => earlier.files.lookup path ≠ t.files.lookup path).map fun path =>
    (path, t.files.lookup path)

/-- A file tree as the state of a run. -/
def system : FileSystem (StateM FileTree) where
  kind? path := do
    let t ← get
    return (t.locate? path).bind t.kindAt?
  read? path := do
    let t ← get
    return (t.bytes? path).bind Text.decode?
  write path text := do
    let t ← get
    match (t.locate? path).filter fun place => t.kindAt? place = some .file with
    | some place =>
      set (t.put place (some (Text.encode text)))
      return true
    | none => return false

end FileTree

end MavenUpgrade

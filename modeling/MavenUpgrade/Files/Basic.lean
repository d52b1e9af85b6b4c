import MavenUpgrade.Files.Path

/-!
# File systems

What a run does to files, whatever they are: it asks what stands at a path, and reads and writes
text.
-/

namespace MavenUpgrade

/-- What may stand at a path. -/
inductive FileKind where
  | file
  | directory
  deriving DecidableEq, Repr

/-- The operations on files that a run needs. -/
structure FileSystem (m : Type → Type) where
  /-- What stands at a path. -/
  kind? : Path → m (Option FileKind)
  /-- The text of a file; none if there is no text to be read. -/
  read? : Path → m (Option String)
  /-- Replaces the text of a file, and says whether that was possible. -/
  write : Path → String → m Bool

namespace FileSystem

variable {m : Type → Type} [Monad m]

/-- Whether a directory stands at a path. -/
def isDirectory (fs : FileSystem m) (path : Path) : m Bool :=
  return (← fs.kind? path) = some .directory

/-- Whether a file stands at a path. -/
def isFile (fs : FileSystem m) (path : Path) : m Bool :=
  return (← fs.kind? path) = some .file

/-- Whether something stands at a path. -/
def isPresent (fs : FileSystem m) (path : Path) : m Bool :=
  return (← fs.kind? path).isSome

end FileSystem

end MavenUpgrade

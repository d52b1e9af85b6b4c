import MavenUpgrade.Files.Path

/-!
# What may be wrong with a manifest
-/

namespace MavenUpgrade

/-- Why a text is no manifest. -/
inductive Malformation where
  | notXml
  /-- The root element has another name than the one expected. -/
  | wrongRoot (name : String)
  /-- The project lacks one of its coordinates. -/
  | missing (element : String)
  deriving DecidableEq, Repr

/-- The wording of what is wrong with a text. -/
def Malformation.message : Malformation → String
  | notXml => "invalid XML"
  | wrongRoot name => "root element is <" ++ name ++ ">, expected <project>"
  | missing element => "missing project <" ++ element ++ ">"

/-- Why there is no manifest to work with. -/
inductive ManifestError where
  | notFound (path : Path)
  | unreadable (path : Path)
  | unwritable (path : Path)
  | malformed (reason : Malformation)
  deriving DecidableEq, Repr

/-- The wording of a failure to get a manifest. -/
def ManifestError.message : ManifestError → String
  | notFound path => "manifest file not found: " ++ path.shown
  | unreadable path => "failed to read manifest file " ++ path.shown
  | unwritable path => "failed to write manifest file " ++ path.shown
  | malformed reason => "malformed manifest: " ++ reason.message

end MavenUpgrade

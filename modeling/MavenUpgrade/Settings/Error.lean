import MavenUpgrade.Files.Path

/-!
# What may be wrong with settings
-/

namespace MavenUpgrade

/-- Why there are no settings to work with. -/
inductive SettingsError where
  | invalidDuration (text : String)
  /-- A directory holds no manifest. -/
  | noManifest (directory : Path)
  /-- A file cannot be read, or does not hold what it should. -/
  | invalidFile (path : Path)
  /-- No lookup would ever be started. -/
  | noConcurrency
  deriving DecidableEq, Repr

/-- The wording of a failure to get settings. -/
def SettingsError.message : SettingsError → String
  | invalidDuration text =>
    "invalid duration format '" ++ text ++ "': expected format like '30s', '2m', '1h'"
  | noManifest directory =>
    "invalid path '" ++ directory.shown ++ "': directory does not contain a pom.xml"
  | invalidFile path => "invalid config file " ++ path.shown
  | noConcurrency => "conflicting options: concurrency must be at least 1"

end MavenUpgrade

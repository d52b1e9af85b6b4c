import MavenUpgrade.Settings.Error
import MavenUpgrade.Toml.Entry

/-!
# Project settings

A project may keep defaults for its runs in a file beside its manifest. Every entry of the file has
to be a known one, of its type, and may be given once only.
-/

namespace MavenUpgrade

/-- The defaults that a project keeps. -/
structure ProjectSettings where
  exclude : List String
  avoidMajor : List String
  ignoreDev : Bool
  stableOnly : Bool
  concurrency? : Option Nat
  timeoutSeconds? : Option Nat
  registryUrl? : Option String
  deriving DecidableEq, Repr

namespace ProjectSettings

/-- The name of the file. -/
def fileName : String := ".pomup.toml"

/-- The defaults of a project that keeps none. -/
def empty : ProjectSettings :=
  ⟨[], [], false, false, none, none, none⟩

/-- Takes an entry. -/
def take (p : ProjectSettings) (entry : TomlEntry) : Option ProjectSettings :=
  match entry.key, entry.value with
  | "exclude", .texts values => some { p with exclude := values }
  | "avoid_major", .texts values => some { p with avoidMajor := values }
  | "ignore_dev", .bool value => some { p with ignoreDev := value }
  | "stable_only", .bool value => some { p with stableOnly := value }
  | "concurrency", .number value => some { p with concurrency? := some value }
  | "timeout_secs", .number value => some { p with timeoutSeconds? := some value }
  | "registry_url", .text value => some { p with registryUrl? := some value }
  | _, _ => none

/-- The defaults that entries give. -/
def ofEntries? (entries : List TomlEntry) : Option ProjectSettings :=
  if (entries.map (·.key)).Nodup then entries.foldlM take empty else none

/-- The defaults that a text gives; `path` names it where it is refused. -/
def read (path : Path) (text : String) : Except SettingsError ProjectSettings :=
  match (TomlEntry.ofText? text).bind ofEntries? with
  | some settings => .ok settings
  | none => .error (.invalidFile path)

end ProjectSettings

end MavenUpgrade

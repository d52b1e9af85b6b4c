import MavenUpgrade.Manifest.Error
import MavenUpgrade.Pom.Edit
import MavenUpgrade.Settings.Error

/-!
# What may end a run
-/

namespace MavenUpgrade

/-- Why a run ends without a report. -/
inductive RunError where
  | settings (error : SettingsError)
  | manifest (error : ManifestError)
  | patch (error : PatchError)
  deriving DecidableEq, Repr

/-- The wording of a failed run. -/
def RunError.message : RunError → String
  | settings error => error.message
  | manifest error => error.message
  | patch error => error.message

end MavenUpgrade

import MavenUpgrade.Settings.Arguments
import MavenUpgrade.Settings.Project
import MavenUpgrade.Suggest.Options

/-!
# Settings

The settings of a run, from its arguments and the defaults of the project. An argument comes before
a default; of lists, both count.
-/

namespace MavenUpgrade

/-- The settings of a run. -/
structure Settings where
  /-- The path of the manifest. -/
  manifest : Path
  dryRun : Bool
  options : SuggestOptions
  /-- The number of lookups that may run at once. -/
  concurrency : Nat
  /-- The seconds after which lookups are given up. -/
  timeout? : Option Nat
  versionsFile? : Option Path
  registryUrl? : Option String
  deriving DecidableEq, Repr

namespace Settings

/-- The number of lookups that may run at once when nothing is said about it. -/
def defaultConcurrency : Nat := 10

/-- A list, with those items of another one behind it that it does not have yet. -/
def union (first second : List String) : List String :=
  second.foldl (fun merged item => if merged.contains item then merged else merged ++ [item]) first

/-- The constraints on suggestions. -/
def suggestOptions (a : Arguments) (p : ProjectSettings) : SuggestOptions where
  ignoreNonProduction := a.has .ignoreDev || p.ignoreDev
  excluded := union a.exclude p.exclude
  keepMajor := union a.avoidMajor p.avoidMajor
  stableOnly := a.has .stableOnly || p.stableOnly

/-- The settings of a run on a manifest. -/
def merge (a : Arguments) (manifest : Path) (p : ProjectSettings) :
    Except SettingsError Settings :=
  let concurrency := (a.concurrency?.or p.concurrency?).getD defaultConcurrency
  if concurrency = 0 then .error .noConcurrency
  else .ok {
    manifest := manifest
    dryRun := a.has .dryRun
    options := suggestOptions a p
    concurrency := concurrency
    timeout? := a.timeout?.or p.timeoutSeconds?
    versionsFile? := a.versionsFile?
    registryUrl? := a.registryUrl?.or p.registryUrl? }

end Settings

end MavenUpgrade

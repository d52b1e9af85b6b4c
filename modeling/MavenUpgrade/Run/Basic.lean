import MavenUpgrade.Files.Basic
import MavenUpgrade.Report.Render
import MavenUpgrade.Run.Plan
import MavenUpgrade.Run.Source
import MavenUpgrade.Settings.Basic

/-!
# Runs

A run from its arguments to its report: the manifest is found, the settings are completed by those
of the project, the source of versions is opened, the manifest is read and its upgrade planned, and
the new text is written unless nothing is to be changed.
-/

namespace MavenUpgrade

/-- A step of a run. -/
abbrev RunStep (m : Type → Type) (α : Type) : Type := ExceptT RunError m α

/-- What a run works with. -/
structure World (m : Type → Type) where
  files : FileSystem m
  network : Network

namespace World

variable {m : Type → Type} [Monad m]

/-- The path of the manifest that a path stands for: a directory stands for the one in it. -/
def manifestPath (w : World m) (path : Path) : RunStep m Path := do
  if ← w.files.isDirectory path then
    let manifest := path.join Ecosystem.maven.manifestName
    if ← w.files.isFile manifest then
      return manifest
    else
      throw (.settings (.noManifest path))
  else
    return path

/-- The defaults that are kept in a directory. -/
def projectSettings (w : World m) (directory : Path) : RunStep m ProjectSettings := do
  let path := directory.join ProjectSettings.fileName
  if ← w.files.isFile path then
    match ← w.files.read? path with
    | some text => liftExcept ((ProjectSettings.read path text).mapError RunError.settings)
    | none => throw (.settings (.invalidFile path))
  else
    return .empty

/-- The settings of a run. -/
def settings (w : World m) (a : Arguments) : RunStep m Settings := do
  let manifest ← w.manifestPath a.path
  let project ← w.projectSettings manifest.directory
  liftExcept ((Settings.merge a manifest project).mapError RunError.settings)

/-- The source of versions of a run. -/
def source (w : World m) (s : Settings) : RunStep m Source := do
  match s.versionsFile? with
  | none => return .search (s.registryUrl?.getD Search.defaultEndpoint)
  | some path =>
    match (← w.files.read? path).bind VersionTable.read? with
    | some table => return .table table
    | none => throw (.settings (.invalidFile path))

/-- The text of a manifest. -/
def manifestText (w : World m) (path : Path) : RunStep m String := do
  if ← w.files.isPresent path then
    match ← w.files.read? path with
    | some text => return text
    | none => throw (.manifest (.unreadable path))
  else
    throw (.manifest (.notFound path))

/-- Carries a plan out, and says whether a file was written. -/
def carryOut (w : World m) (s : Settings) (p : UpgradePlan) : RunStep m Bool := do
  if p.isChange && !s.dryRun then
    if ← w.files.write s.manifest p.after then
      return true
    else
      throw (.manifest (.unwritable s.manifest))
  else
    return false

/-- A run, whose lookups may be cancelled before they start. -/
def run (w : World m) (cancelled : Bool) (a : Arguments) : RunStep m Report := do
  let settings ← w.settings a
  let source ← w.source settings
  let text ← w.manifestText settings.manifest
  let lookups : LookupPlan :=
    ⟨settings.concurrency, cancelled, fun package => some (source.lookup w.network package)⟩
  let plan ← liftExcept (UpgradePlan.make settings.options lookups text)
  let modified ← w.carryOut settings plan
  return plan.report settings.manifest modified

end World

/-- The status with which a run ends that has a report: it tells whether every requirement could be
checked. -/
def Summary.exitStatus (s : Summary) : Nat :=
  if s.isPartial then 2 else 0

/-- The status with which a failed run ends. -/
def RunError.exitStatus : Nat := 1

/-- The status with which a run ends whose arguments are at fault. -/
def Refusal.exitStatus : Refusal → Nat
  | help | version => 0
  | usage => 2

/-- The name and the version of the program. -/
def versionLine : String := "pomup 26.1.103"

/-- What is printed where no run takes place. -/
def Refusal.output : Refusal → String
  | help | usage => ""
  | version => versionLine ++ "\n"

/-- What the program leaves behind: a status, the text that it prints, and an error. -/
structure Exit where
  status : Nat
  output : String
  error? : Option String
  deriving DecidableEq, Repr

/-- A run of the program from its command line; `colored` says whether its output may be. -/
def World.main {m : Type → Type} [Monad m] (w : World m) (colored : Bool) (words : List String) :
    m Exit := do
  match Arguments.read words with
  | .error refusal => return ⟨refusal.exitStatus, refusal.output, none⟩
  | .ok a =>
    match ← (w.run false a).run with
    | .ok report =>
      return ⟨report.summary.exitStatus, (a.reportOptions colored).render report, none⟩
    | .error e => return ⟨RunError.exitStatus, "", some e.message⟩

end MavenUpgrade

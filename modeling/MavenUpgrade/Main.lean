import MavenUpgrade.Run.Basic
import MavenUpgrade.Text.Utf8

/-!
# The program

The command line program: a run on the files of the machine. It has no access to a network, so it
is of use with a versions file.
-/

namespace MavenUpgrade

/-- Whether an action succeeds. -/
def succeeds (action : IO α) : IO Bool := do
  match ← action.toBaseIO with
  | .ok _ => return true
  | .error _ => return false

/-- The files of the machine, as far as their paths are texts. What has a current directory is a
directory. -/
def machineFiles : FileSystem IO where
  kind? path := do
    match path.text? with
    | some name =>
      if ← succeeds (IO.FS.realPath (name ++ "/.")) then return some .directory
      else if ← succeeds (IO.FS.realPath name) then return some .file
      else return none
    | none => return none
  read? path := do
    match path.text? with
    | some name =>
      match ← (IO.FS.readBinFile name).toBaseIO with
      | .ok bytes => return Text.decode? bytes.toList
      | .error _ => return none
    | none => return none
  write path text := do
    match path.text? with
    | some name => succeeds (IO.FS.writeFile name text)
    | none => return false

/-- Whether terminal styles are of use in what is printed. -/
def isColored : IO Bool := do
  let isTerminal ← (← IO.getStdout).isTty
  return isTerminal && (← IO.getEnv "NO_COLOR").isNone

end MavenUpgrade

open MavenUpgrade in
/-- Runs the program. -/
def main (words : List String) : IO UInt32 := do
  let done ← (⟨machineFiles, .offline⟩ : World IO).main (← isColored) words
  IO.print done.output
  match done.error? with
  | some message => IO.eprintln ("Error: " ++ message)
  | none => pure ()
  return done.status.toUInt32

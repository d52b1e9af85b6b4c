import MavenUpgrade.Files.Path
import MavenUpgrade.Report.Options
import MavenUpgrade.Settings.Duration

/-!
# Command line arguments

The arguments are taken one after the other. An argument that begins with two hyphens names a switch
or an option, which may carry its value after an equals sign; one that begins with one hyphen is a
bundle of switches; any other one is the path. Two hyphens alone end the options. A switch, an
option with a single value and the path may be given once only, and the first argument at fault
ends the reading. Which options exclude each other is looked at in the end.
-/

namespace MavenUpgrade

/-- Something that is switched on by its mere presence. -/
inductive Switch where
  | dryRun
  | verbose
  | quiet
  | ignoreDev
  | stableOnly
  | json
  | diff
  deriving DecidableEq, Repr

/-- Something that is given with a value. -/
inductive OptionName where
  | exclude
  | avoidMajor
  | concurrency
  | timeout
  | versionsFile
  | registryUrl
  deriving DecidableEq, Repr

/-- Why arguments do not lead to a run. -/
inductive Refusal where
  /-- Help is asked for. -/
  | help
  /-- The version of the program is asked for. -/
  | version
  /-- The arguments are at fault. -/
  | usage
  deriving DecidableEq, Repr

/-- The arguments of a run. -/
structure Arguments where
  path? : Option Path
  /-- The switches that are on. -/
  switches : List Switch
  exclude : List String
  avoidMajor : List String
  concurrency? : Option Nat
  /-- The seconds after which lookups are given up. -/
  timeout? : Option Nat
  versionsFile? : Option Path
  registryUrl? : Option String
  deriving DecidableEq, Repr

namespace Arguments

/-- No arguments. -/
def none : Arguments :=
  ⟨.none, [], [], [], .none, .none, .none, .none⟩

/-- Whether a switch is on. -/
def has (a : Arguments) (s : Switch) : Bool :=
  a.switches.contains s

/-- The path to work on when none is given. -/
def defaultPath : Path := .ofText "."

/-- The path to work on. -/
def path (a : Arguments) : Path :=
  a.path?.getD defaultPath

/-- Whether the progress of the lookups is shown. -/
def showsProgress (a : Arguments) : Bool :=
  !a.has .quiet && !a.has .json

/-- How much is reported. -/
def verbosity (a : Arguments) : Verbosity :=
  .ofFlags (a.has .verbose) (a.has .quiet)

/-- How the report is made. -/
def reportOptions (a : Arguments) (colored : Bool) : ReportOptions where
  format := .ofFlags (a.has .json) (a.has .diff)
  verbosity := a.verbosity
  dryRun := a.has .dryRun
  colored := colored

/-- What a name or a letter on the command line stands for. -/
inductive Meaning where
  | switch (s : Switch)
  | option (o : OptionName)
  | refuse (r : Refusal)
  deriving DecidableEq, Repr

/-- What a long name stands for. -/
def longMeaning : String → Meaning
  | "dry-run" => .switch .dryRun
  | "verbose" => .switch .verbose
  | "quiet" => .switch .quiet
  | "ignore-dev" => .switch .ignoreDev
  | "stable-only" => .switch .stableOnly
  | "json" => .switch .json
  | "diff" => .switch .diff
  | "exclude" => .option .exclude
  | "avoid-major" => .option .avoidMajor
  | "concurrency" => .option .concurrency
  | "timeout" => .option .timeout
  | "versions-file" => .option .versionsFile
  | "registry-url" => .option .registryUrl
  | "help" => .refuse .help
  | "version" => .refuse .version
  | _ => .refuse .usage

/-- What a letter stands for. -/
def shortMeaning : Char → Meaning
  | 'n' => .switch .dryRun
  | 'q' => .switch .quiet
  | 'h' => .refuse .help
  | 'V' => .refuse .version
  | _ => .refuse .usage

/-- The kinds of arguments. -/
inductive Word where
  /-- The end of the options. -/
  | ending
  /-- A long name, and the value that it carries. -/
  | long (name : String) (value? : Option String)
  /-- A bundle of letters. -/
  | letters (letters : List Char)
  | plain (text : String)
  deriving DecidableEq, Repr

/-- The kind of an argument. -/
def Word.ofText (text : String) : Word :=
  match text.toList with
  | ['-', '-'] => ending
  | '-' :: '-' :: cs =>
    long (String.ofList (cs.takeWhile (· != '='))) <|
      match cs.dropWhile (· != '=') with
      | _ :: value => some (String.ofList value)
      | [] => Option.none
  | '-' :: c :: cs => letters (c :: cs)
  | _ => plain text

/-- Switches something on. -/
def switchOn (a : Arguments) (s : Switch) : Except Refusal Arguments :=
  if a.has s then .error .usage else .ok { a with switches := a.switches ++ [s] }

/-- A value that is given for the first time. -/
def once (given? value? : Option α) : Except Refusal (Option α) :=
  match given?, value? with
  | .none, some value => .ok (some value)
  | _, _ => .error .usage

/-- The path that a text gives, which may not be empty. -/
def writtenPath? (text : String) : Option Path :=
  if text.isEmpty then Option.none else some (.ofText text)

/-- Gives an option a value. -/
def setOption (a : Arguments) (o : OptionName) (value : String) : Except Refusal Arguments :=
  match o with
  | .exclude => .ok { a with exclude := a.exclude ++ [value] }
  | .avoidMajor => .ok { a with avoidMajor := a.avoidMajor ++ [value] }
  | .concurrency => do
    return { a with concurrency? := ← once a.concurrency? (Text.wholeNumber? value.toList) }
  | .timeout => do
    return { a with timeout? := ← once a.timeout? (Duration.read value).toOption }
  | .versionsFile => do
    return { a with versionsFile? := ← once a.versionsFile? (writtenPath? value) }
  | .registryUrl => do
    return { a with registryUrl? := ← once a.registryUrl? (some value) }

/-- Sets the path. -/
def setPath (a : Arguments) (text : String) : Except Refusal Arguments := do
  return { a with path? := ← once a.path? (writtenPath? text) }

/-- Takes a letter of a bundle. -/
def takeLetter (a : Arguments) (letter : Char) : Except Refusal Arguments :=
  match shortMeaning letter with
  | .switch s => a.switchOn s
  | .refuse r => .error r
  | .option _ => .error .usage

/-- Takes the arguments in turn. -/
def take (a : Arguments) : List String → Except Refusal Arguments
  | [] => .ok a
  | word :: rest =>
    match Word.ofText word with
    | .ending => rest.foldlM setPath a
    | .plain text => do take (← a.setPath text) rest
    | .letters letters => do take (← letters.foldlM takeLetter a) rest
    | .long name value? =>
      match longMeaning name, value? with
      | .switch s, .none => do take (← a.switchOn s) rest
      | .option o, some value => do take (← a.setOption o value) rest
      | .option o, .none =>
        match rest with
        | next :: rest =>
          match Word.ofText next with
          | .plain value => do take (← a.setOption o value) rest
          | _ => .error .usage
        | [] => .error .usage
      | .refuse r, .none => .error r
      | _, some _ => .error .usage

/-- Whether options are given that exclude each other. -/
def conflicts (a : Arguments) : Bool :=
  (a.has .verbose && a.has .quiet) || (a.has .json && a.has .diff) ||
    (a.registryUrl?.isSome && a.versionsFile?.isSome)

/-- The arguments that a command line gives. -/
def read (words : List String) : Except Refusal Arguments := do
  let a ← take none words
  if a.conflicts then .error .usage else return a

end Arguments

end MavenUpgrade

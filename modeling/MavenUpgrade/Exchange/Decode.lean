import MavenUpgrade.Exchange.Encode

/-!
# Values from JSON

Reading the JSON form of values. What is written is read back, and some more is accepted: fields
that are not known are ignored, a record may be an array of its parts in order, and a choice
without parts may be an object with its name and null. Inside an outcome a little more is accepted
than elsewhere.
-/

namespace MavenUpgrade

/-- Where a value stands: inside an outcome, or elsewhere. -/
inductive JsonPlace where
  | elsewhere
  | insideOutcome
  deriving DecidableEq, Repr

namespace Json

/-- Whether a value may stand for the parts of a choice that has none: inside an outcome, an empty
object may as well. -/
def isNothing (place : JsonPlace) : Json → Bool
  | null => true
  | object [] => place == .insideOutcome
  | _ => false

/--
The parts of a record with the given field names: those of an object by name, or the items of an
array by position. A part that is not there is none.
-/
def parts? (names : List String) (value : Json) : Option (List (Option Json)) :=
  match value with
  | object _ => some (names.map value.field?)
  | array items =>
    if items.length ≤ names.length then
      some (items.map some ++ List.replicate (names.length - items.length) none)
    else none
  | _ => none

/-- The name of a choice without parts. -/
def choice? (place : JsonPlace) : Json → Option String
  | string name => some name
  | object [(name, parts)] => if parts.isNothing place then some name else none
  | _ => none

/-- The name of a tagged choice, whose choices have the given names: inside an outcome, a number may
stand for the name at its position. -/
def tagName? (place : JsonPlace) (names : List String) (tag : Json) : Option String :=
  match place with
  | .elsewhere => tag.text?
  | .insideOutcome => tag.text? <|> tag.nat?.bind (names[·]?)

/-- What the value of an optional part stands for. -/
def optional? (decode : Json → Option α) : Json → Option (Option α)
  | null => some none
  | value => (decode value).map some

/-- The choice that an object names in a field, or an array in its first item, and its parts. -/
def tagged? (tag : String) (value : Json) : Option (Json × Json) :=
  match value with
  | object _ => (value.field? tag).map (·, value)
  | array (name :: rest) => some (name, array rest)
  | _ => none

end Json

/-- The ecosystem that a JSON value stands for. -/
def Ecosystem.ofJson? (place : JsonPlace) (value : Json) : Option Ecosystem :=
  match value.choice? place with
  | some "maven" => some maven
  | _ => none

/-- The origin that a JSON value stands for. -/
def Origin.ofJson? (value : Json) : Option Origin :=
  value.text?.bind Origin.read?

/-- The scope that a JSON value stands for. -/
def Scope.ofJson? (value : Json) : Option Scope :=
  value.text?.bind Scope.read?

/-- The package that a JSON value stands for. -/
def Package.ofJson? (place : JsonPlace) (value : Json) : Option Package :=
  match value.parts? ["ecosystem", "name"] with
  | some [some ecosystem, some name] =>
    return ⟨← Ecosystem.ofJson? place ecosystem, ← name.text?⟩
  | _ => none

/-- The scopes that a declaration names; a part that is not there names none. -/
def Requirement.tags? : Option Json → Option (List String)
  | some tags => tags.listOf? Json.text?
  | none => some []

/-- The requirement that a JSON value stands for. -/
def Requirement.ofJson? (place : JsonPlace) (value : Json) : Option Requirement :=
  match value.parts? ["package", "declared", "resolved", "origin", "scope_tags"] with
  | some [some package, some declared, some resolved, some origin, tags] =>
    return ⟨← Package.ofJson? place package, ← declared.text?, ← resolved.text?,
      ← Origin.ofJson? origin, ← tags? tags⟩
  | _ => none

/-- The new version text for a declaration that a JSON value stands for. -/
def DependencyPatch.ofJson? (value : Json) : Option DependencyPatch :=
  match value.parts? ["package", "origin", "new_require"] with
  | some [some package, some origin, some newRequire] =>
    return ⟨← Package.ofJson? .elsewhere package, ← Origin.ofJson? origin, ← newRequire.text?⟩
  | _ => none

/-- The new value of a property that a field stands for. -/
def PropertyPatches.value? (field : String × Json) : Option (String × String) :=
  field.2.text?.map (field.1, ·)

/-- The new values of the properties of one scope that a JSON value stands for. -/
def PropertyPatches.values? (value : Json) : Option (SortedMap String String) :=
  value.fields?.bind fun fields =>
    (fields.mapM value?).map .ofList

/-- The scope with new values of its properties that a field stands for. -/
def PropertyPatches.scope? (field : String × Json) :
    Option (Scope × SortedMap String String) :=
  return (← Scope.read? field.1, ← values? field.2)

/-- The new values of properties that a JSON value stands for. -/
def PropertyPatches.ofJson? (value : Json) : Option PropertyPatches :=
  value.fields?.bind fun fields =>
    (fields.mapM scope?).map .ofList

/-- The patch that a JSON value stands for. -/
def Patch.ofJson? (value : Json) : Option Patch :=
  match value.parts? ["deps", "properties"] with
  | some [some dependencies, some properties] =>
    return ⟨← dependencies.listOf? DependencyPatch.ofJson?, ← PropertyPatches.ofJson? properties⟩
  | _ => none

/-- The reason that a JSON value stands for. -/
def SkipReason.ofJson? (place : JsonPlace) (value : Json) : Option SkipReason :=
  match value with
  | .object [("fetch_failed", detail)] => detail.text?.map fetchFailed
  | .object [("unresolved_property", detail)] => detail.text?.map unresolvedProperty
  | .object [("invalid_specifier", detail)] => detail.text?.map invalidSpecifier
  | _ =>
    match value.choice? place with
    | some "already_latest" => some alreadyLatest
    | some "excluded" => some excluded
    | some "non_production" => some nonProduction
    | some "no_versions_available" => some noVersionsAvailable
    | some "cancelled" => some cancelled
    | _ => none

/-- The names of the routes in their order. -/
def Route.names : List String := ["direct", "property", "pinned"]

/-- The route with the given name and parts. -/
def Route.ofParts? (name : String) (parts : Json) : Option Route :=
  match name, parts with
  | "direct", .object _ => some direct
  | "direct", .array [] => some direct
  | "pinned", .object _ => some pinned
  | "pinned", .array [] => some pinned
  | "property", parts =>
    match parts.parts? ["scope", "name"] with
    | some [some scope, some name] => return property (← Scope.ofJson? scope) (← name.text?)
    | _ => none
  | _, _ => none

/-- The route that a JSON value stands for. -/
def Route.ofJson? (place : JsonPlace) (value : Json) : Option Route := do
  let (tag, parts) ← value.tagged? "kind"
  ofParts? (← tag.tagName? place names) parts

/-- The outcome with the given name and parts. -/
def Outcome.ofParts? (name : String) (parts : Json) : Option Outcome :=
  match name with
  | "update" =>
    match parts.parts? ["requirement", "new_version", "via"] with
    | some [some r, some newVersion, some via] =>
      return update (← Requirement.ofJson? .insideOutcome r) (← newVersion.text?)
        (← Route.ofJson? .insideOutcome via)
    | _ => none
  | "skip" =>
    match parts.parts? ["requirement", "reason"] with
    | some [some r, some reason] =>
      return skip (← Requirement.ofJson? .insideOutcome r)
        (← SkipReason.ofJson? .insideOutcome reason)
    | _ => none
  | _ => none

/-- The outcome that a JSON value stands for. -/
def Outcome.ofJson? (value : Json) : Option Outcome := do
  let (tag, parts) ← value.tagged? "type"
  ofParts? (← tag.text?) parts

/-- The path that a JSON value stands for. -/
def Path.ofJson? (value : Json) : Option Path :=
  value.text?.map .ofText

/-- The summary that a JSON value stands for. -/
def Summary.ofJson? (value : Json) : Option Summary :=
  match value.parts? ["path", "ecosystem", "root", "results", "patch", "modified"] with
  | some [some path, some ecosystem, some root, some results, some patch, some modified] =>
    return ⟨← Path.ofJson? path, ← Ecosystem.ofJson? .elsewhere ecosystem, ← root.text?,
      ← results.listOf? Outcome.ofJson?, ← Patch.ofJson? patch, ← modified.bool?⟩
  | _ => none

/-- The bound that a JSON value stands for. -/
def Bound.ofJson? (value : Json) : Option Bound :=
  match value.parts? ["version", "inclusive"] with
  | some [some version, some inclusive] => return ⟨← version.text?, ← inclusive.bool?⟩
  | _ => none

/-- The interval with the given parts, of which one that is not there leaves its side open. -/
def Interval.ofSides? (lower upper : Option Json) : Option Interval :=
  return ⟨← (lower.getD .null).optional? Bound.ofJson?, ← (upper.getD .null).optional? Bound.ofJson?⟩

/-- The interval that a JSON value stands for; an array has to have both parts. -/
def Interval.ofJson? (value : Json) : Option Interval :=
  match value with
  | .object _ => ofSides? (value.field? "lower") (value.field? "upper")
  | .array [lower, upper] => ofSides? lower upper
  | _ => none

/-- The range that a JSON value stands for. -/
def VersionRange.ofJson? (value : Json) : Option VersionRange :=
  match value.parts? ["raw", "intervals"] with
  | some [some raw, some intervals] =>
    return ⟨← raw.text?, ← intervals.listOf? Interval.ofJson?⟩
  | _ => none

/-- The specifier that a JSON value stands for. -/
def Specifier.ofJson? (value : Json) : Option Specifier :=
  match value.parts? ["kind", "value"] with
  | some [some kind, some content] =>
    match kind.choice? .elsewhere with
    | some "concrete" => content.text?.map concrete
    | some "range" => (VersionRange.ofJson? content).map range
    | _ => none
  | _ => none

end MavenUpgrade

import MavenUpgrade.Patch
import MavenUpgrade.Pom.Declaration

/-!
# Editing a project document

A patch is applied by replacing the spans of the declarations that it names, and nothing else. Of
several declarations of one target the first is edited. The whole patch is checked before
anything is written.
-/

namespace MavenUpgrade

/-- What an edit changes. -/
inductive PatchTarget where
  | dependency (package : Package) (origin : Origin)
  | property (scope : Scope) (name : String)
  deriving DecidableEq, Repr

/-- The name of a target in messages. -/
def PatchTarget.text : PatchTarget → String
  | dependency package origin =>
    "dependency " ++ package.name ++ " (" ++
      (if origin = .direct then "dependencies" else origin.text) ++ ")"
  | property scope name =>
    "property " ++ name ++ " (" ++ (if scope = .root then "root" else scope.text) ++ ")"

/-- Why a patch cannot be applied. -/
inductive PatchError where
  | malformed (reason : Malformation)
  /-- The document does not declare the target. -/
  | notDeclared (target : PatchTarget)
  /-- The text of the target cannot be edited in place. -/
  | notPlain (target : PatchTarget)
  /-- Two edits change the same text. -/
  | conflict (first second : PatchTarget)
  deriving DecidableEq, Repr

/-- The wording of a refused patch. -/
def PatchError.message : PatchError → String
  | malformed reason =>
    "cannot patch malformed document: " ++ (ManifestError.malformed reason).message
  | notDeclared target => "patch target not found: " ++ target.text
  | notPlain target => "patch target not found: " ++ target.text ++ " is not plain text"
  | conflict first second => "edit conflict: " ++ first.text ++ " overlaps " ++ second.text

/-- A span that gets a new text. -/
structure Edit where
  span : Span
  replacement : List Char
  target : PatchTarget
  deriving DecidableEq, Repr

/-- The written form of a character in character data. -/
def escapeChar (c : Char) : List Char :=
  match c with
  | '&' => "&amp;".toList
  | '<' => "&lt;".toList
  | '>' => "&gt;".toList
  | _ => [c]

/-- The written form of a text as character data. -/
def escapeText (text : String) : List Char :=
  text.toList.flatMap escapeChar

namespace Pom

/-- The span of the first declaration of a target, if the target is declared. -/
def spanOf? (pom : Pom) : PatchTarget → Option (Option Span)
  | .dependency package origin =>
    (pom.dependencies.find? fun d => d.package = package ∧ d.origin = origin).map (·.span?)
  | .property scope name =>
    (pom.properties.find? fun p => p.scope = scope ∧ p.name = name).map (·.span?)

/-- The edit that gives a target a new text. -/
def editOf (pom : Pom) (target : PatchTarget) (text : String) : Except PatchError Edit :=
  match pom.spanOf? target with
  | some (some span) => .ok ⟨span, escapeText text, target⟩
  | some none => .error (.notPlain target)
  | none => .error (.notDeclared target)

end Pom

namespace Patch

/-- The targets of a patch with their new texts: declarations first, then properties. -/
def changes (p : Patch) : List (PatchTarget × String) :=
  p.dependencies.map (fun d => (.dependency d.package d.origin, d.newRequire)) ++
    p.propertyChanges.map fun (scope, name, value) => (.property scope name, value)

end Patch

namespace Edit

/-- Whether an edit comes no later in the document than another one. -/
def comesBefore (e f : Edit) : Bool :=
  e.span.start < f.span.start || (e.span.start == f.span.start && e.span.stop ≤ f.span.stop)

/-- Whether an edit touches the text of one that comes no earlier. -/
def overlaps (e f : Edit) : Bool :=
  f.span.start < e.span.stop || e.span.start == f.span.start

/-- The first two of consecutive edits that overlap. -/
def firstOverlap? : List Edit → Option (Edit × Edit)
  | e :: f :: rest => if e.overlaps f then some (e, f) else firstOverlap? (f :: rest)
  | _ => none

/-- The text from an offset on, with edits that come one after the other. -/
def splice (offset : Nat) : List Edit → List Char → List Char
  | [], cs => cs
  | e :: rest, cs =>
    cs.take (e.span.start - offset) ++ e.replacement ++
      splice e.span.stop rest (cs.drop (e.span.stop - offset))

end Edit

/-- The text of a document after a patch. -/
def applyPatch (text : String) (patch : Patch) : Except PatchError String := do
  if patch.isEmpty then
    return text
  let pom ← (Pom.read text).mapError .malformed
  let edits ← patch.changes.mapM fun (target, new) => pom.editOf target new
  let ordered := edits.mergeSort Edit.comesBefore
  match Edit.firstOverlap? ordered with
  | some (e, f) => .error (.conflict e.target f.target)
  | none => return String.ofList (Edit.splice 0 ordered text.toList)

end MavenUpgrade

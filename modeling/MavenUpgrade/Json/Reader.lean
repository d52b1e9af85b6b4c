import MavenUpgrade.Json.Basic
import MavenUpgrade.Json.Token

/-!
# Reading JSON

A JSON text is one value with nothing but blanks around it. A string without a text, and an object
with a field that is named by one, are read as null: they do no harm where nothing is asked of
them. Each function returns the tokens that follow what it read, and these are fewer than it was
given.
-/

namespace MavenUpgrade.Json

/-- What a reader returns: a value, and the tokens that follow it, fewer than were given. -/
abbrev Read (α : Type) (ts : List JsonToken) : Type :=
  Option (α × { rest : List JsonToken // rest.length < ts.length })

/-- The name of a field, and what follows the colon behind it. The name may have no text. -/
def readName : (ts : List JsonToken) → Read (Option String) ts
  | .string name :: .colon :: rest =>
    some (some name, ⟨rest, by simp only [List.length_cons]; omega⟩)
  | .halfPair :: .colon :: rest => some (none, ⟨rest, by simp only [List.length_cons]; omega⟩)
  | _ => none

mutual

/-- The value that the tokens begin with. -/
def readValue (ts : List JsonToken) : Read Json ts :=
  match ts with
  | .null :: rest => some (null, ⟨rest, by simp⟩)
  | .bool value :: rest => some (bool value, ⟨rest, by simp⟩)
  | .number literal :: rest => some (number literal, ⟨rest, by simp⟩)
  | .string text :: rest => some (string text, ⟨rest, by simp⟩)
  | .halfPair :: rest => some (null, ⟨rest, by simp⟩)
  | .openArray :: .closeArray :: rest => some (array [], ⟨rest, by simp only [List.length_cons]; omega⟩)
  | .openArray :: rest =>
    (readItems rest).map fun (items, more) =>
      (array items, ⟨more.1, by have := more.2; simp only [List.length_cons]; omega⟩)
  | .openObject :: .closeObject :: rest => some (object [], ⟨rest, by simp only [List.length_cons]; omega⟩)
  | .openObject :: rest =>
    (readFields rest).map fun (fields, more) =>
      (fields.elim null object, ⟨more.1, by have := more.2; simp only [List.length_cons]; omega⟩)
  | _ => none
termination_by (ts.length, 0)

/-- The items up to the end of an array. -/
def readItems (ts : List JsonToken) : Read (List Json) ts :=
  match readValue ts with
  | some (item, ⟨.closeArray :: rest, h⟩) =>
    some ([item], ⟨rest, by simp only [List.length_cons] at h; omega⟩)
  | some (item, ⟨.comma :: rest, h⟩) =>
    (readItems rest).map fun (items, more) =>
      (item :: items, ⟨more.1, by have := more.2; simp only [List.length_cons] at h; omega⟩)
  | _ => none
termination_by (ts.length, 1)
decreasing_by
  · exact Prod.Lex.right _ (by omega)
  · exact Prod.Lex.left _ _ (by simp only [List.length_cons] at h; omega)

/-- The fields up to the end of an object, if each of their names has a text. -/
def readFields (ts : List JsonToken) : Read (Option (List (String × Json))) ts :=
  match readName ts with
  | some (name, ⟨ts', h'⟩) =>
    match readValue ts' with
    | some (value, ⟨.closeObject :: rest, h⟩) =>
      some (name.map fun name => [(name, value)],
        ⟨rest, by simp only [List.length_cons] at h; omega⟩)
    | some (value, ⟨.comma :: rest, h⟩) =>
      (readFields rest).map fun (fields, more) =>
        (name.bind fun name => fields.map ((name, value) :: ·),
          ⟨more.1, by have := more.2; simp only [List.length_cons] at h; omega⟩)
    | _ => none
  | none => none
termination_by (ts.length, 1)
decreasing_by
  · exact Prod.Lex.left _ _ h'
  · exact Prod.Lex.left _ _ (by simp only [List.length_cons] at h; omega)

end

/-- The value that a text writes. -/
def ofText? (text : String) : Option Json :=
  match JsonToken.ofText? text with
  | some ts =>
    match readValue ts with
    | some (value, ⟨[], _⟩) => some value
    | _ => none
  | none => none

end MavenUpgrade.Json

/-!
# JSON values

A JSON value keeps the fields of an object in order, with repeated names, and a number as it is
written, so that nothing of a document is decided before it is asked for.
-/

namespace MavenUpgrade

/-- A JSON value. -/
inductive Json where
  | null
  | bool (value : Bool)
  /-- A number as written. -/
  | number (literal : String)
  | string (text : String)
  | array (items : List Json)
  | object (fields : List (String × Json))

namespace Json

/-- A natural number. -/
def ofNat (n : Nat) : Json :=
  number (Nat.repr n)

/-- A value that may be missing; a missing one is null. -/
def ofOption (encode : α → Json) : Option α → Json
  | some value => encode value
  | none => null

/-- A list of values. -/
def ofList (encode : α → Json) (values : List α) : Json :=
  array (values.map encode)

/-- The text of a string. -/
def text? : Json → Option String
  | string text => some text
  | _ => none

/-- The truth value of a value. -/
def bool? : Json → Option Bool
  | bool value => some value
  | _ => none

/-- The natural number that a number without fraction and exponent writes. -/
def nat? : Json → Option Nat
  | number literal => literal.toNat?
  | _ => none

/-- The items of an array. -/
def items? : Json → Option (List Json)
  | array items => some items
  | _ => none

/-- The fields of an object. -/
def fields? : Json → Option (List (String × Json))
  | object fields => some fields
  | _ => none

/-- The value of a field of an object; of a repeated name the last value counts. -/
def field? (name : String) : Json → Option Json
  | object fields => fields.reverse.lookup name
  | _ => none

/-- The values of an array that all decode. -/
def listOf? (decode : Json → Option α) : Json → Option (List α)
  | array items => items.mapM decode
  | _ => none

end Json

end MavenUpgrade

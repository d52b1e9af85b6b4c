import MavenUpgrade.Json.Basic

/-!
# Writing JSON

Two layouts of a JSON value: on one line without blanks, and with one item or field a line,
indented by two blanks a level. Strings are quoted the same way in both: quotes, backslashes and
control characters are escaped, and every other character stands for itself.
-/

namespace MavenUpgrade.Json

/-- The escape of a character of a string. -/
def escapeChar (c : Char) : List Char :=
  match c with
  | '"' => ['\\', '"']
  | '\\' => ['\\', '\\']
  | '\n' => ['\\', 'n']
  | '\r' => ['\\', 'r']
  | '\t' => ['\\', 't']
  | '\x08' => ['\\', 'b']
  | '\x0c' => ['\\', 'f']
  | _ =>
    if c.toNat < 0x20 then
      ['\\', 'u', '0', '0', Nat.digitChar (c.toNat / 16), Nat.digitChar (c.toNat % 16)]
    else [c]

/-- A string in quotes. -/
def quote (text : String) : String :=
  "\"" ++ String.ofList (text.toList.flatMap escapeChar) ++ "\""

/-- The pieces in brackets on one line. -/
def inline (opening : String) (pieces : List String) (closing : String) : String :=
  opening ++ ",".intercalate pieces ++ closing

/-- A line break and the indent of a level. -/
def newLine (level : Nat) : String :=
  "\n" ++ String.ofList (List.replicate (2 * level) ' ')

/-- The pieces in brackets, each on a line of its own one level deeper than the brackets. -/
def block (level : Nat) (opening : String) (pieces : List String) (closing : String) : String :=
  if pieces.isEmpty then opening ++ closing
  else
    opening ++ newLine (level + 1) ++ ("," ++ newLine (level + 1)).intercalate pieces ++
      newLine level ++ closing

mutual

/-- A value on one line. -/
def compact : Json → String
  | null => "null"
  | bool value => if value then "true" else "false"
  | number literal => literal
  | string text => quote text
  | array items => inline "[" (compactItems items) "]"
  | object fields => inline "\x7b" (compactFields fields) "\x7d"

/-- The items of an array, each on one line. -/
def compactItems : List Json → List String
  | [] => []
  | item :: items => compact item :: compactItems items

/-- The fields of an object, each on one line. -/
def compactFields : List (String × Json) → List String
  | [] => []
  | (name, value) :: fields => (quote name ++ ":" ++ compact value) :: compactFields fields

end

mutual

/-- A value laid out over lines, in brackets of the given level. -/
def prettyAt (level : Nat) : Json → String
  | null => "null"
  | bool value => if value then "true" else "false"
  | number literal => literal
  | string text => quote text
  | array items => block level "[" (prettyItems (level + 1) items) "]"
  | object fields => block level "\x7b" (prettyFields (level + 1) fields) "\x7d"

/-- The items of an array, laid out. -/
def prettyItems (level : Nat) : List Json → List String
  | [] => []
  | item :: items => prettyAt level item :: prettyItems level items

/-- The fields of an object, laid out. -/
def prettyFields (level : Nat) : List (String × Json) → List String
  | [] => []
  | (name, value) :: fields =>
    (quote name ++ ": " ++ prettyAt level value) :: prettyFields level fields

end

/-- A value laid out over lines. -/
def pretty (value : Json) : String :=
  prettyAt 0 value

end MavenUpgrade.Json

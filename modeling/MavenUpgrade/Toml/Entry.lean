import MavenUpgrade.Text.Lines
import MavenUpgrade.Toml.Token

/-!
# Entries of a TOML document

The documents read here have only entries at the top: a key, an equals sign and a value, each on a
line of its own. A value is a text, a number that fits in a machine word, a truth value, or a list of
texts. Settings need no more, so every other document is refused.
-/

namespace MavenUpgrade

/-- The value of an entry. -/
inductive TomlValue where
  | text (value : String)
  | number (value : Nat)
  | bool (value : Bool)
  | texts (values : List String)
  deriving DecidableEq, Repr

namespace TomlValue

/-- The number that digits in a base write, where underscores may stand between two digits. -/
def grouped? (base : Nat) (digits : List Char) : Option Nat :=
  let groups := Text.splitWhere (· == '_') digits
  if groups.any List.isEmpty then none else Text.digitsValue? base groups.flatten

/-- The number that decimal digits write; only a zero that stands alone comes first. -/
def decimal? (digits : List Char) : Option Nat :=
  if digits.head? = some '0' ∧ digits ≠ ['0'] then none else grouped? 10 digits

/-- The number that a word writes. Of the numbers below zero there is only minus zero. -/
def wordNumber? : List Char → Option Nat
  | '0' :: 'x' :: digits => grouped? 16 digits
  | '0' :: 'o' :: digits => grouped? 8 digits
  | '0' :: 'b' :: digits => grouped? 2 digits
  | '+' :: digits => decimal? digits
  | '-' :: digits => (decimal? digits).filter (· = 0)
  | digits => decimal? digits

/-- The value that a word writes. -/
def ofWord? (word : List Char) : Option TomlValue :=
  if word = "true".toList then some (bool true)
  else if word = "false".toList then some (bool false)
  else ((wordNumber? word).filter (· < Text.wordLimit)).map number

end TomlValue

/-- An entry of a TOML document. -/
structure TomlEntry where
  key : String
  value : TomlValue
  deriving DecidableEq, Repr

namespace TomlEntry

/-- Whether a character may stand in a key without quotes. -/
def isKeyChar (c : Char) : Bool :=
  c.isAlphanum || c == '_' || c == '-'

/-- The key that a token writes. -/
def key? : TomlToken → Option String
  | .word word => if word.all isKeyChar then some (String.ofList word) else none
  | .text value false => some (String.ofList value)
  | _ => none

/-- The texts up to the end of a list, and the tokens that follow. After a text a comma has to come
before the next one. -/
def readItems (needsComma : Bool) : List TomlToken → Option (List String × List TomlToken)
  | .lineEnd :: rest => readItems needsComma rest
  | .closeArray :: rest => some ([], rest)
  | .comma :: rest => if needsComma then readItems false rest else none
  | .text value _ :: rest =>
    if needsComma then none
    else (readItems true rest).map fun (items, more) => (String.ofList value :: items, more)
  | _ => none

theorem length_le_of_readItems {needsComma : Bool} {ts rest : List TomlToken} {items : List String}
    (h : readItems needsComma ts = some (items, rest)) : rest.length ≤ ts.length := by
  fun_induction readItems needsComma ts generalizing items with
  | case1 _ _ ih => have := ih h; simp only [List.length_cons]; omega
  | case2 => simp only [Option.some.injEq, Prod.mk.injEq] at h; simp [← h.2]
  | case3 _ ih => have := ih h; simp only [List.length_cons]; omega
  | case4 => simp at h
  | case5 => simp at h
  | case6 _ _ _ _ _ ih =>
    obtain ⟨⟨_, _⟩, hr, he⟩ := Option.map_eq_some_iff.mp h
    obtain ⟨_, rfl⟩ := Prod.mk.inj he
    have := ih hr
    simp only [List.length_cons]
    omega
  | case7 => simp at h

/-- The value that tokens begin with, and those that follow. -/
def readValue : List TomlToken → Option (TomlValue × List TomlToken)
  | .text value _ :: rest => some (.text (String.ofList value), rest)
  | .word word :: rest => (TomlValue.ofWord? word).map (·, rest)
  | .openArray :: rest => (readItems false rest).map fun (items, more) => (.texts items, more)
  | _ => none

theorem length_le_of_readValue {ts rest : List TomlToken} {value : TomlValue}
    (h : readValue ts = some (value, rest)) : rest.length ≤ ts.length := by
  unfold readValue at h
  split at h
  · simp only [Option.some.injEq, Prod.mk.injEq] at h
    simp [← h.2]
  · obtain ⟨_, _, he⟩ := Option.map_eq_some_iff.mp h
    simp [← (Prod.mk.inj he).2]
  · obtain ⟨⟨_, _⟩, hr, he⟩ := Option.map_eq_some_iff.mp h
    obtain ⟨_, rfl⟩ := Prod.mk.inj he
    have := length_le_of_readItems hr
    simp only [List.length_cons]
    omega
  · simp at h

/-- The entries that tokens write. -/
def readEntries (ts : List TomlToken) : Option (List TomlEntry) :=
  match ts with
  | [] => some []
  | .lineEnd :: rest => readEntries rest
  | key :: .equals :: rest =>
    match key? key, _h : readValue rest with
    | some key, some (value, []) => some [⟨key, value⟩]
    | some key, some (value, .lineEnd :: more) => (readEntries more).map (⟨key, value⟩ :: ·)
    | _, _ => none
  | _ => none
termination_by ts.length
decreasing_by
  · simp
  · have := length_le_of_readValue _h
    simp only [List.length_cons] at this ⊢
    omega

/-- The entries of a document. -/
def ofText? (document : String) : Option (List TomlEntry) :=
  (TomlToken.ofText? document).bind readEntries

end TomlEntry

end MavenUpgrade

import MavenUpgrade.Text.Digits

/-!
# Tokens of a TOML document

A TOML document is cut into words, texts in quotes, a few marks and line ends; blanks and comments
are dropped. Texts are decoded here. Marks of which only tables, dates and fractions are made are
no tokens, so a document with one of them is refused.
-/

namespace MavenUpgrade

/-- A token of a TOML document. -/
inductive TomlToken where
  | lineEnd
  | equals
  | comma
  | openArray
  | closeArray
  /-- A bare key, a number or a truth value, as written. -/
  | word (text : List Char)
  /-- A text in quotes, and whether it may span lines. -/
  | text (value : List Char) (multiline : Bool)
  deriving DecidableEq, Repr

namespace TomlToken

/-- Whether a character may stand in a comment or in a text. -/
def isPlain (c : Char) : Bool :=
  c == '\t' || (0x20 ≤ c.toNat && c.toNat ≠ 0x7F)

/-- The character with the number that hexadecimal digits write. -/
def numbered? (digits : List Char) : Option Char :=
  (Text.digitsValue? 16 digits).bind fun n =>
    if n.isValidChar then some (Char.ofNat n) else none

/-- The character that a one-letter escape stands for. -/
def escaped? : Char → Option Char
  | 'b' => some '\x08'
  | 't' => some '\t'
  | 'n' => some '\n'
  | 'f' => some '\x0c'
  | 'r' => some '\r'
  | '"' => some '"'
  | '\\' => some '\\'
  | _ => none

/-- What follows the line end that a text begins with. -/
def afterLineEnd? : List Char → Option (List Char)
  | '\n' :: rest => some rest
  | '\r' :: '\n' :: rest => some rest
  | _ => none

/-- Whether a character is a blank within a line. -/
def isBlank (c : Char) : Bool :=
  c == ' ' || c == '\t'

/-- Whether a character is a blank or part of a line end. -/
def isBlankOrEnd (c : Char) : Bool :=
  isBlank c || c == '\n' || c == '\r'

/-- Whether each carriage return of a text is followed by a line feed. -/
def returnsPaired : List Char → Bool
  | '\r' :: '\n' :: rest => returnsPaired rest
  | '\r' :: _ => false
  | _ :: rest => returnsPaired rest
  | [] => true

/-- What follows a backslash at the end of a line: the blanks up to the next other character do not
count. -/
def afterLineBreak? (cs : List Char) : Option (List Char) :=
  let blanks := cs.takeWhile isBlankOrEnd
  if (afterLineEnd? (blanks.dropWhile isBlank)).isSome && returnsPaired blanks then
    some (cs.dropWhile isBlankOrEnd)
  else none

/-- The character that the escape after a backslash stands for, and what follows it. -/
def escape? : List Char → Option (Char × List Char)
  | 'u' :: a :: b :: c :: d :: rest => (numbered? [a, b, c, d]).map (·, rest)
  | 'U' :: a :: b :: c :: d :: e :: f :: g :: h :: rest =>
    (numbered? [a, b, c, d, e, f, g, h]).map (·, rest)
  | c :: rest => (escaped? c).map (·, rest)
  | [] => none

theorem length_le_of_escape? {cs rest : List Char} {c : Char} (h : escape? cs = some (c, rest)) :
    rest.length ≤ cs.length := by
  unfold escape? at h
  split at h
  · obtain ⟨_, _, he⟩ := Option.map_eq_some_iff.mp h
    simp only [Prod.mk.injEq] at he
    simp only [← he.2, List.length_cons]
    omega
  · obtain ⟨_, _, he⟩ := Option.map_eq_some_iff.mp h
    simp only [Prod.mk.injEq] at he
    simp only [← he.2, List.length_cons]
    omega
  · obtain ⟨_, _, he⟩ := Option.map_eq_some_iff.mp h
    simp only [Prod.mk.injEq] at he
    simp [← he.2]
  · simp at h

theorem length_le_of_afterLineBreak? {cs rest : List Char} (h : afterLineBreak? cs = some rest) :
    rest.length ≤ cs.length := by
  simp only [afterLineBreak?] at h
  split at h
  · obtain rfl := Option.some.inj h
    exact (List.dropWhile_sublist _).length_le
  · simp at h

/-- A kind of quotes. -/
structure Quotes where
  mark : Char
  /-- Whether the text may span lines, between three marks on each side. -/
  multiline : Bool
  deriving DecidableEq, Repr

/-- Whether escapes count between quotes. -/
def Quotes.escapes (q : Quotes) : Bool :=
  q.mark == '"'

/-- The closing quotes. -/
def Quotes.closing (q : Quotes) : List Char :=
  List.replicate (if q.multiline then 3 else 1) q.mark

/--
What follows the closing quotes when a text begins with them, behind text that is given backwards.
Up to two more marks before the closing three belong to the text.
-/
def Quotes.close? (q : Quotes) (taken cs : List Char) : Option (List Char × List Char) :=
  if q.closing.isPrefixOf cs then
    let rest := cs.drop q.closing.length
    let extra := if q.multiline then (rest.take 2).takeWhile (· == q.mark) else []
    some ((extra ++ taken).reverse, rest.drop extra.length)
  else none

/-- The rest of a text in quotes and what follows it, behind text that is given backwards. The line
ends of a text are kept as they are written. -/
def readText (q : Quotes) (taken cs : List Char) : Option (List Char × List Char) :=
  match q.close? taken cs, cs with
  | some result, _ => some result
  | none, [] => none
  | none, c :: rest =>
    if c = '\\' ∧ q.escapes then
      match _h₁ : escape? rest with
      | some (e, more) => readText q (e :: taken) more
      | none =>
        if q.multiline then
          match _h₂ : afterLineBreak? rest with
          | some more => readText q taken more
          | none => none
        else none
    else if isPlain c || (q.multiline && (afterLineEnd? (c :: rest)).isSome) then
      readText q (c :: taken) rest
    else none
termination_by cs.length
decreasing_by
  · have := length_le_of_escape? _h₁
    simp only [List.length_cons]
    omega
  · have := length_le_of_afterLineBreak? _h₂
    simp only [List.length_cons]
    omega
  · simp

/-- The quotes that a text begins with, and what follows them. A line end directly after three
marks does not count. -/
def openQuotes? : List Char → Option (Quotes × List Char)
  | '"' :: '"' :: '"' :: rest => some (⟨'"', true⟩, (afterLineEnd? rest).getD rest)
  | '\'' :: '\'' :: '\'' :: rest => some (⟨'\'', true⟩, (afterLineEnd? rest).getD rest)
  | '"' :: rest => some (⟨'"', false⟩, rest)
  | '\'' :: rest => some (⟨'\'', false⟩, rest)
  | _ => none

/-- The token of a mark. -/
def mark? : Char → Option TomlToken
  | '=' => some equals
  | ',' => some comma
  | '[' => some openArray
  | ']' => some closeArray
  | _ => none

/-- Whether a character may stand in a word. -/
def isWordChar (c : Char) : Bool :=
  c.isAlphanum || c == '_' || c == '-' || c == '+'

/--
The tokens of a text, behind those already read, which are given backwards. Each of them takes at
least one of the `fuel` characters of the text.
-/
def readTokens : (fuel : Nat) → (taken : List TomlToken) → List Char → Option (List TomlToken)
  | _, taken, [] => some taken.reverse
  | 0, _, _ => none
  | fuel + 1, taken, c :: rest =>
    if isBlank c then readTokens fuel taken rest
    else if c = '#' then readTokens fuel taken (rest.dropWhile isPlain)
    else
      match afterLineEnd? (c :: rest), openQuotes? (c :: rest), mark? c with
      | some more, _, _ => readTokens fuel (lineEnd :: taken) more
      | none, some (q, inner), _ =>
        match readText q [] inner with
        | some (value, more) => readTokens fuel (text value q.multiline :: taken) more
        | none => none
      | none, none, some token => readTokens fuel (token :: taken) rest
      | none, none, none =>
        if isWordChar c then
          readTokens fuel (word (c :: rest.takeWhile isWordChar) :: taken)
            (rest.dropWhile isWordChar)
        else none

/-- The tokens of a document; a byte order mark at its start does not count. -/
def ofText? (document : String) : Option (List TomlToken) :=
  let cs := match document.toList with
    | '\ufeff' :: rest => rest
    | cs => cs
  readTokens cs.length [] cs

end TomlToken

end MavenUpgrade

import MavenUpgrade.Text.Digits

/-!
# Tokens of a JSON text

A JSON text is cut into punctuation, names, numbers and strings; the blanks between them are
dropped. Strings are decoded here: an escape stands for its character, and a pair of surrogate
escapes for one character. A string with a surrogate that stands alone has no text.
-/

namespace MavenUpgrade

/-- A token of a JSON text. -/
inductive JsonToken where
  | openArray
  | closeArray
  | openObject
  | closeObject
  | comma
  | colon
  | null
  | bool (value : Bool)
  /-- A number as written. -/
  | number (literal : String)
  /-- A string without its quotes and escapes. -/
  | string (text : String)
  /-- A string without a text, since a surrogate stands alone in it. -/
  | halfPair
  deriving DecidableEq, Repr

namespace JsonToken

/-- The character that a one-letter escape stands for. -/
def escaped? : Char → Option Char
  | '"' => some '"'
  | '\\' => some '\\'
  | '/' => some '/'
  | 'b' => some '\x08'
  | 'f' => some '\x0c'
  | 'n' => some '\n'
  | 'r' => some '\r'
  | 't' => some '\t'
  | _ => none

/-- Whether a code unit is the first of a surrogate pair. -/
def isHigh (unit : Nat) : Bool :=
  0xD800 ≤ unit && unit < 0xDC00

/-- Whether a code unit is the second of a surrogate pair. -/
def isLow (unit : Nat) : Bool :=
  0xDC00 ≤ unit && unit < 0xE000

/-- The character that a surrogate pair encodes. -/
def ofPair (high low : Nat) : Char :=
  Char.ofNat (0x10000 + (high - 0xD800) * 0x400 + (low - 0xDC00))

/--
The text of the rest of a string, if it has one, and what follows its closing quote. What was read
before is given backwards, as long as it is a text. A surrogate escape that waits for its other
half is `pending`.
-/
def readString (taken : Option (List Char)) (pending : Option Nat) :
    List Char → Option (Option String × List Char)
  | [] => none
  | '\\' :: 'u' :: a :: b :: c :: d :: rest =>
    match Text.digitsValue? 16 [a, b, c, d], pending with
    | none, _ => none
    | some unit, some high =>
      readString (if isLow unit then taken.map (ofPair high unit :: ·) else none) none rest
    | some unit, none =>
      if isHigh unit then readString taken (some unit) rest
      else readString (if isLow unit then none else taken.map (Char.ofNat unit :: ·)) none rest
  | '\\' :: e :: rest =>
    match escaped? e with
    | some c => readString (if pending.isSome then none else taken.map (c :: ·)) none rest
    | none => none
  | c :: rest =>
    let taken := if pending.isSome then none else taken
    if c = '"' then some (taken.map fun cs => String.ofList cs.reverse, rest)
    else if c.toNat < 0x20 then none
    else readString (taken.map (c :: ·)) none rest

theorem length_lt_of_readString {taken : Option (List Char)} {pending : Option Nat}
    {cs rest : List Char} {text : Option String}
    (h : readString taken pending cs = some (text, rest)) : rest.length < cs.length := by
  fun_induction readString taken pending cs with
  | case1 => simp at h
  | case2 => simp at h
  | case3 _ _ _ _ _ _ _ _ _ ih => have := ih h; simp only [List.length_cons]; omega
  | case4 _ _ _ _ _ _ _ _ _ ih => have := ih h; simp only [List.length_cons]; omega
  | case5 _ _ _ _ _ _ _ _ _ ih => have := ih h; simp only [List.length_cons]; omega
  | case6 _ _ _ _ _ _ _ ih => have := ih h; simp only [List.length_cons]; omega
  | case7 => simp at h
  | case8 =>
    simp only [Option.some.injEq, Prod.mk.injEq] at h
    simp [← h.2]
  | case9 => simp at h
  | case10 _ _ _ _ _ _ _ _ _ ih => have := ih h; simp only [List.length_cons]; omega

/-- Whether a character can stand in a number or in one of the three names. -/
def isWordChar (c : Char) : Bool :=
  c.isAlphanum || c == '+' || c == '-' || c == '.'

/-- The digits that a text begins with, if there is one, and the rest. -/
def digits? (cs : List Char) : Option (List Char) :=
  if (cs.takeWhile Char.isDigit).isEmpty then none else some (cs.dropWhile Char.isDigit)

/-- What follows the whole part of a number: no digit may follow a leading zero. -/
def afterWhole? : List Char → Option (List Char)
  | '0' :: rest => some rest
  | cs => digits? cs

/-- What follows the fraction of a number, which may be missing. -/
def afterFraction? : List Char → Option (List Char)
  | '.' :: rest => digits? rest
  | cs => some cs

/-- What follows the exponent of a number, which may be missing. -/
def afterExponent? : List Char → Option (List Char)
  | c :: rest =>
    if c = 'e' ∨ c = 'E' then
      match rest with
      | '+' :: digits => digits? digits
      | '-' :: digits => digits? digits
      | digits => digits? digits
    else some (c :: rest)
  | [] => some []

/-- Whether a word is a number. -/
def isNumber (word : List Char) : Bool :=
  let whole := match word with
    | '-' :: rest => rest
    | _ => word
  (afterWhole? whole >>= afterFraction? >>= afterExponent?) == some []

/-- The token that a word makes. -/
def ofWord? (word : List Char) : Option JsonToken :=
  if word = "null".toList then some null
  else if word = "true".toList then some (bool true)
  else if word = "false".toList then some (bool false)
  else if isNumber word then some (number (String.ofList word))
  else none

/-- The token that a single character makes. -/
def punctuation? : Char → Option JsonToken
  | '[' => some openArray
  | ']' => some closeArray
  | '{' => some openObject
  | '}' => some closeObject
  | ',' => some comma
  | ':' => some colon
  | _ => none

/-- Whether a character may stand between two tokens. -/
def isBlank (c : Char) : Bool :=
  c == ' ' || c == '\t' || c == '\n' || c == '\r'

/-- The tokens of a text, behind those already read, which are given backwards. -/
def readTokens (taken : List JsonToken) (cs : List Char) : Option (List JsonToken) :=
  match cs with
  | [] => some taken.reverse
  | c :: rest =>
    if isBlank c then readTokens taken rest
    else if c = '"' then
      match _h : readString (some []) none rest with
      | some (some text, rest') => readTokens (string text :: taken) rest'
      | some (none, rest') => readTokens (halfPair :: taken) rest'
      | none => none
    else
      match punctuation? c with
      | some token => readTokens (token :: taken) rest
      | none =>
        if isWordChar c then
          match ofWord? (c :: rest.takeWhile isWordChar) with
          | some token => readTokens (token :: taken) (rest.dropWhile isWordChar)
          | none => none
        else none
termination_by cs.length
decreasing_by
  · simp
  · have := length_lt_of_readString _h
    simp only [List.length_cons]
    omega
  · have := length_lt_of_readString _h
    simp only [List.length_cons]
    omega
  · simp
  · have := (List.dropWhile_sublist (l := rest) isWordChar).length_le
    simp only [List.length_cons]
    omega

/-- The tokens of a text. -/
def ofText? (text : String) : Option (List JsonToken) :=
  readTokens [] text.toList

end JsonToken

end MavenUpgrade

/-!
# Tokens of a version text

A version text is cut at each dot and each hyphen, and wherever a digit meets a character of
another kind. The tokens are the maximal runs that remain together with the separators, so no
character is lost (`flatMap_chars_ofChars`).
-/

namespace MavenUpgrade

/-- A piece of a version text. -/
inductive Token where
  /-- A dot. -/
  | dot
  /-- A hyphen. -/
  | dash
  /-- A maximal run of ASCII digits. -/
  | digits (run : List Char)
  /-- A maximal run of characters that are neither digits nor separators. -/
  | word (run : List Char)
  deriving DecidableEq, Repr

namespace Token

/-- The characters of a token. -/
def chars : Token → List Char
  | dot => ['.']
  | dash => ['-']
  | digits run => run
  | word run => run

/-- Whether the tokens begin with a digit. -/
def beginDigits : List Token → Bool
  | digits _ :: _ => true
  | _ => false

/-- The tokens of a text from its first character and the tokens of the rest. -/
def push (c : Char) (ts : List Token) : List Token :=
  if c = '.' then dot :: ts
  else if c = '-' then dash :: ts
  else if c.isDigit then
    match ts with
    | digits run :: rest => digits (c :: run) :: rest
    | _ => digits [c] :: ts
  else
    match ts with
    | word run :: rest => word (c :: run) :: rest
    | _ => word [c] :: ts

/-- The tokens of a text. -/
def ofChars (cs : List Char) : List Token :=
  cs.foldr push []

/-- A pushed character stands in front of the characters of the tokens. -/
theorem flatMap_chars_push (c : Char) (ts : List Token) :
    (push c ts).flatMap chars = c :: ts.flatMap chars := by
  unfold push
  split
  · next h => subst h; rfl
  · split
    · next h => subst h; rfl
    · split <;> split <;> simp [chars]

/-- The tokens of a text hold its characters in order. -/
theorem flatMap_chars_ofChars (cs : List Char) : (ofChars cs).flatMap chars = cs := by
  induction cs with
  | nil => rfl
  | cons c cs ih =>
    rw [ofChars, List.foldr_cons, flatMap_chars_push]
    exact congrArg (c :: ·) ih

end Token

end MavenUpgrade

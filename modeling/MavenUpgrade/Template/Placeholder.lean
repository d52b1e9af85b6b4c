import MavenUpgrade.Collection.Distinct

/-!
# Placeholders

A placeholder is a name between a dollar sign with an opening brace and a closing brace. The name
is not empty and holds none of these three characters. The placeholders of a text are found from
the left and do not overlap.
-/

namespace MavenUpgrade.Placeholder

/-- Whether a character may stand in the name of a placeholder. -/
def isNameChar (c : Char) : Bool :=
  c != '$' && c != '{' && c != '}'

/-- The two characters before the name of a placeholder. -/
def opening : List Char := ['$', '{']

/-- The character after the name of a placeholder. -/
def closing : List Char := ['}']

/-- The placeholder with the given name. -/
def enclose (name : List Char) : List Char :=
  opening ++ name ++ closing

/-- The placeholder with the given name, for strings. -/
def text (name : String) : String :=
  String.ofList (enclose name.toList)

/-- The name of the placeholder that a text begins with, and what follows it. -/
def atStart? : List Char → Option (List Char × List Char)
  | '$' :: '{' :: cs =>
    match cs.dropWhile isNameChar with
    | '}' :: rest =>
      if (cs.takeWhile isNameChar).isEmpty then none else some (cs.takeWhile isNameChar, rest)
    | _ => none
  | _ => none

/-- What stands before the first placeholder of a text, its name, and what follows it. -/
def first? : List Char → Option (List Char × List Char × List Char)
  | [] => none
  | c :: cs =>
    match atStart? (c :: cs) with
    | some (name, rest) => some ([], name, rest)
    | none => (first? cs).map fun (before, name, rest) => (c :: before, name, rest)

/-- A placeholder that a text begins with and what follows it are the text. -/
theorem eq_of_atStart? {cs name rest : List Char} (h : atStart? cs = some (name, rest)) :
    cs = enclose name ++ rest := by
  unfold atStart? at h
  split at h
  · next cs =>
    split at h
    · next rest' hd =>
      split at h
      · exact absurd h (by simp)
      · obtain ⟨rfl, rfl⟩ := Prod.mk.inj (Option.some.inj h)
        rw [enclose, opening, closing]
        have := List.takeWhile_append_dropWhile (p := isNameChar) (l := cs)
        rw [hd] at this
        simp [this]
    · exact absurd h (by simp)
  · exact absurd h (by simp)

/-- What stands before the first placeholder, the placeholder, and the rest are the text. -/
theorem eq_of_first? {cs before name rest : List Char} (h : first? cs = some (before, name, rest)) :
    cs = before ++ enclose name ++ rest := by
  induction cs generalizing before with
  | nil => simp [first?] at h
  | cons c cs ih =>
    rw [first?] at h
    split at h
    · next hs =>
      simp only [Option.some.injEq, Prod.mk.injEq] at h
      obtain ⟨rfl, rfl, rfl⟩ := h
      simpa using eq_of_atStart? hs
    · obtain ⟨⟨b, n, r⟩, hr, he⟩ := Option.map_eq_some_iff.mp h
      obtain ⟨rfl, rfl, rfl⟩ : c :: b = before ∧ n = name ∧ r = rest := by simpa using he
      simpa using ih hr

/-- What follows the first placeholder is shorter than the text. -/
theorem length_lt_of_first? {cs before name rest : List Char}
    (h : first? cs = some (before, name, rest)) : rest.length < cs.length := by
  rw [eq_of_first? h]
  simp only [enclose, opening, closing, List.length_append, List.length_cons, List.length_nil]
  omega

/-- The names of the placeholders of a text, in order and with repetitions. -/
def occurrences (cs : List Char) : List String :=
  match _h : first? cs with
  | some (_, name, rest) => String.ofList name :: occurrences rest
  | none => []
termination_by cs.length
decreasing_by exact length_lt_of_first? _h

/-- The names of the placeholders of a text, each where it first occurs. -/
def names (text : String) : List String :=
  distinct (occurrences text.toList)

/-- Whether the opening of a placeholder stands somewhere in a text. -/
def opensIn : List Char → Bool
  | '$' :: '{' :: _ => true
  | _ :: cs => opensIn cs
  | [] => false

/-- Whether the opening of a placeholder stands somewhere in a text, for strings. -/
def mentioned (text : String) : Bool :=
  opensIn text.toList

end MavenUpgrade.Placeholder

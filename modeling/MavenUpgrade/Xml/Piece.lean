import MavenUpgrade.Xml.Char

/-!
# Pieces of an XML text

An XML text is cut into character data, sections, comments, instructions and tags before any of
them is understood. Nothing is lost: the pieces written one after the other are the text
(`flatMap_chars_of_cut?`), so a change inside one piece leaves all others as they are.
-/

namespace MavenUpgrade.Xml

/-- A piece of an XML text, by what stands between its marks. -/
inductive Piece where
  /-- Character data, up to the next tag or other markup. -/
  | text (raw : List Char)
  /-- A section of literal character data. -/
  | cdata (content : List Char)
  | comment (content : List Char)
  /-- A processing instruction. -/
  | instruction (content : List Char)
  /-- A start tag, an end tag, or the tag of an empty element. -/
  | tag (content : List Char)
  deriving DecidableEq, Repr

/-- What begins a section of literal character data. -/
def cdataOpening : List Char := ['<', '!', '[', 'C', 'D', 'A', 'T', 'A', '[']

/-- What ends a section of literal character data. -/
def cdataClosing : List Char := [']', ']', '>']

/-- What begins a comment. -/
def commentOpening : List Char := ['<', '!', '-', '-']

/-- What ends a comment. -/
def commentClosing : List Char := ['-', '-', '>']

/-- What begins a processing instruction. -/
def instructionOpening : List Char := ['<', '?']

/-- What ends a processing instruction. -/
def instructionClosing : List Char := ['?', '>']

/-- What stands before the first occurrence of a mark, and what follows it. -/
def cutAt? (mark : List Char) : List Char → Option (List Char × List Char)
  | [] => if mark.isEmpty then some ([], []) else none
  | c :: cs =>
    if mark.isPrefixOf (c :: cs) then some ([], (c :: cs).drop mark.length)
    else (cutAt? mark cs).map fun (before, after) => (c :: before, after)

theorem eq_of_cutAt? {mark cs before after : List Char}
    (h : cutAt? mark cs = some (before, after)) : cs = before ++ mark ++ after := by
  induction cs generalizing before with
  | nil =>
    rw [cutAt?] at h
    split at h
    · next hm => simp_all
    · simp at h
  | cons c cs ih =>
    rw [cutAt?] at h
    split at h
    · next hp =>
      obtain ⟨rest, hr⟩ := List.isPrefixOf_iff_prefix.mp hp
      simp only [Option.some.injEq, Prod.mk.injEq] at h
      obtain ⟨rfl, rfl⟩ := h
      rw [← hr]
      simp
    · obtain ⟨⟨b, a⟩, hc, he⟩ := Option.map_eq_some_iff.mp h
      obtain ⟨rfl, rfl⟩ : c :: b = before ∧ a = after := by simpa using he
      simpa using ih hc

/--
What stands before the end of a tag, and what follows it. The end is the first closing bracket
that is not in quotes; `quote` is the quote that is open.
-/
def cutTag? (quote : Option Char) : List Char → Option (List Char × List Char)
  | [] => none
  | c :: cs =>
    if quote = none ∧ c = '>' then some ([], cs)
    else
      let quote' :=
        if quote = some c then none
        else if quote = none ∧ (c = '"' ∨ c = '\'') then some c
        else quote
      (cutTag? quote' cs).map fun (content, rest) => (c :: content, rest)

theorem eq_of_cutTag? {quote : Option Char} {cs content rest : List Char}
    (h : cutTag? quote cs = some (content, rest)) : cs = content ++ '>' :: rest := by
  induction cs generalizing quote content with
  | nil => simp [cutTag?] at h
  | cons c cs ih =>
    rw [cutTag?] at h
    split at h
    · next hc =>
      simp only [Option.some.injEq, Prod.mk.injEq] at h
      obtain ⟨rfl, rfl⟩ := h
      simp [hc.2]
    · obtain ⟨⟨b, r⟩, hb, he⟩ := Option.map_eq_some_iff.mp h
      obtain ⟨rfl, rfl⟩ : c :: b = content ∧ r = rest := by simpa using he
      simpa using ih hb

namespace Piece

/-- The characters of a piece, marks included. -/
def chars : Piece → List Char
  | text raw => raw
  | cdata content => cdataOpening ++ content ++ cdataClosing
  | comment content => commentOpening ++ content ++ commentClosing
  | instruction content => instructionOpening ++ content ++ instructionClosing
  | tag content => '<' :: content ++ ['>']

/-- The markup that a text begins with, and what follows it. -/
def markup? (cs : List Char) : Option (Piece × List Char) :=
  if commentOpening.isPrefixOf cs then
    (cutAt? commentClosing (cs.drop commentOpening.length)).map fun (content, rest) =>
      (comment content, rest)
  else if cdataOpening.isPrefixOf cs then
    (cutAt? cdataClosing (cs.drop cdataOpening.length)).map fun (content, rest) =>
      (cdata content, rest)
  else if instructionOpening.isPrefixOf cs then
    (cutAt? instructionClosing (cs.drop instructionOpening.length)).map fun (content, rest) =>
      (instruction content, rest)
  else
    match cs with
    | '<' :: cs => (cutTag? none cs).map fun (content, rest) => (tag content, rest)
    | _ => none

/-- A text begins with markup, which the rest follows: the opening of a comment, of a literal section
or of an instruction, up to its closing, or else a tag. -/
inductive Opens : List Char → Piece → List Char → Prop where
  | comment {cs content rest : List Char} (h : cutAt? commentClosing cs = some (content, rest)) :
      Opens (commentOpening ++ cs) (comment content) rest
  | cdata {cs content rest : List Char} (h : cutAt? cdataClosing cs = some (content, rest)) :
      Opens (cdataOpening ++ cs) (cdata content) rest
  | instruction {cs content rest : List Char}
      (h : cutAt? instructionClosing cs = some (content, rest)) :
      Opens (instructionOpening ++ cs) (instruction content) rest
  | tag {cs content rest : List Char} (h : cutTag? none cs = some (content, rest))
      (hcomment : ¬ commentOpening.isPrefixOf ('<' :: cs) = true)
      (hcdata : ¬ cdataOpening.isPrefixOf ('<' :: cs) = true)
      (hinstruction : ¬ instructionOpening.isPrefixOf ('<' :: cs) = true) :
      Opens ('<' :: cs) (tag content) rest

theorem opens_of_markup? {cs rest : List Char} {p : Piece} (h : markup? cs = some (p, rest)) :
    Opens cs p rest := by
  have hopening {opening : List Char} (hp : opening.isPrefixOf cs = true) :
      opening ++ cs.drop opening.length = cs := by
    obtain ⟨more, rfl⟩ := List.isPrefixOf_iff_prefix.mp hp
    rw [List.drop_left]
  unfold markup? at h
  split at h
  · next hp =>
    obtain ⟨⟨content, r⟩, hc, he⟩ := Option.map_eq_some_iff.mp h
    obtain ⟨rfl, rfl⟩ := Prod.mk.inj he
    exact hopening hp ▸ .comment hc
  · next hcomment =>
    split at h
    · next hp =>
      obtain ⟨⟨content, r⟩, hc, he⟩ := Option.map_eq_some_iff.mp h
      obtain ⟨rfl, rfl⟩ := Prod.mk.inj he
      exact hopening hp ▸ .cdata hc
    · next hcdata =>
      split at h
      · next hp =>
        obtain ⟨⟨content, r⟩, hc, he⟩ := Option.map_eq_some_iff.mp h
        obtain ⟨rfl, rfl⟩ := Prod.mk.inj he
        exact hopening hp ▸ .instruction hc
      · next hinstruction =>
        split at h
        · obtain ⟨⟨content, r⟩, hc, he⟩ := Option.map_eq_some_iff.mp h
          obtain ⟨rfl, rfl⟩ := Prod.mk.inj he
          exact .tag hc hcomment hcdata hinstruction
        · cases h

/-- The markup that a text begins with and what follows it are the text. -/
theorem eq_of_markup? {cs rest : List Char} {p : Piece} (h : markup? cs = some (p, rest)) :
    cs = p.chars ++ rest := by
  cases opens_of_markup? h with
  | comment hc => simp [chars, eq_of_cutAt? hc]
  | cdata hc => simp [chars, eq_of_cutAt? hc]
  | instruction hc => simp [chars, eq_of_cutAt? hc]
  | tag hc hcomment hcdata hinstruction => simp [chars, eq_of_cutTag? hc]

theorem length_chars_pos_of_markup? {cs rest : List Char} {p : Piece}
    (h : markup? cs = some (p, rest)) : 0 < p.chars.length := by
  cases opens_of_markup? h with
  | comment hc => simp [chars, commentOpening]
  | cdata hc => simp [chars, cdataOpening]
  | instruction hc => simp [chars, instructionOpening]
  | tag hc hcomment hcdata hinstruction => simp [chars]

/-- The pieces of a text. -/
def cut? (cs : List Char) : Option (List Piece) :=
  match cs with
  | [] => some []
  | c :: rest =>
    if c = '<' then
      match _h : markup? (c :: rest) with
      | some (p, more) => (cut? more).map (p :: ·)
      | none => none
    else
      (cut? (rest.dropWhile (· != '<'))).map (text (c :: rest.takeWhile (· != '<')) :: ·)
termination_by cs.length
decreasing_by
  · have h₁ := congrArg List.length (eq_of_markup? _h)
    have h₂ := length_chars_pos_of_markup? _h
    simp only [List.length_append] at h₁
    omega
  · have := (List.dropWhile_sublist (l := rest) (· != '<')).length_le
    simp only [List.length_cons]
    omega

/-- The pieces of a text, written one after the other, are the text. -/
theorem flatMap_chars_of_cut? {cs : List Char} {ps : List Piece} (h : cut? cs = some ps) :
    ps.flatMap chars = cs := by
  fun_induction cut? cs generalizing ps with
  | case1 => simp_all
  | case2 rest p more hm ih =>
    obtain ⟨qs, hq, rfl⟩ := Option.map_eq_some_iff.mp h
    rw [List.flatMap_cons, ih hq, ← eq_of_markup? hm]
  | case3 => simp at h
  | case4 c rest hc ih =>
    obtain ⟨qs, hq, rfl⟩ := Option.map_eq_some_iff.mp h
    rw [List.flatMap_cons, ih hq, chars, List.cons_append, List.takeWhile_append_dropWhile]

end Piece

end MavenUpgrade.Xml

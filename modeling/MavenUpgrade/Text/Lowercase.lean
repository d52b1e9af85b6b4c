import MavenUpgrade.Text.Casing
/-!
# Lowercase text

The full lowercase mapping of a text. It differs from a mapping character by character in two
places: a capital dotted I becomes two characters, and a capital sigma becomes the final form
where a word ends. On ASCII it is the mapping of each character alone (`lower_of_ascii`).
-/

namespace MavenUpgrade.Text

/-- Whether a text begins, after ignorable characters, with a cased letter. -/
def beginsCased (cs : List Char) : Bool :=
  match cs.dropWhile (fun c => inRanges caseIgnorableRanges c.toNat) with
  | c :: _ => inRanges casedRanges c.toNat
  | [] => false

/-- The lowercase form of a character by itself. -/
def lowerChar (c : Char) : Char :=
  if c.toNat < 0x80 then c.toLower else Char.ofNat (mapRuns lowercaseRuns c.toNat)

/--
The lowercase form of the character `c` that stands after `before`, which is given backwards,
and in front of `after`.
-/
def lowerAt (before : List Char) (c : Char) (after : List Char) : List Char :=
  if c = 'Σ' then [if beginsCased before && !beginsCased after then 'ς' else 'σ']
  else if c = 'İ' then ['i', '\u0307']
  else [lowerChar c]

/-- The lowercase form of a text that stands after `before`, which is given backwards. -/
def lowerAfter (before : List Char) : List Char → List Char
  | [] => []
  | c :: cs => lowerAt before c cs ++ lowerAfter (c :: before) cs

/-- The lowercase form of a text. -/
def lower (cs : List Char) : List Char :=
  lowerAfter [] cs

/-- An ASCII character has its lowercase form wherever it stands. -/
theorem lowerAt_of_ascii {c : Char} (h : c.toNat < 0x80) (before after : List Char) :
    lowerAt before c after = [c.toLower] := by
  have hs : c ≠ 'Σ' := by rintro rfl; exact absurd h (by decide)
  have hi : c ≠ 'İ' := by rintro rfl; exact absurd h (by decide)
  simp [lowerAt, hs, hi, lowerChar, h]

/-- An ASCII text is lowered character by character, whatever stands before it. -/
theorem lowerAfter_of_ascii {cs : List Char} (h : ∀ c ∈ cs, c.toNat < 0x80)
    (before : List Char) : lowerAfter before cs = cs.map Char.toLower := by
  induction cs generalizing before with
  | nil => rfl
  | cons c cs ih =>
    rw [lowerAfter, lowerAt_of_ascii (h c List.mem_cons_self), List.map_cons,
      ih (fun d hd => h d (List.mem_cons_of_mem _ hd))]
    rfl

/-- An ASCII text is lowered character by character. -/
theorem lower_of_ascii {cs : List Char} (h : ∀ c ∈ cs, c.toNat < 0x80) :
    lower cs = cs.map Char.toLower :=
  lowerAfter_of_ascii h []

end MavenUpgrade.Text

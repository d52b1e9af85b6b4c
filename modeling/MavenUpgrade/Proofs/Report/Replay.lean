import Mathlib
import MavenUpgrade.Proofs.Text.Splitting
import MavenUpgrade.Report.Diff
import MavenUpgrade.Text.Digits

/-!
# Replaying a line difference

A written difference is read back line by line: a header says which lines are replaced and how many
there are before and after, and those lines follow it behind their marks
(`Replacement.readAll?`). Carried out on the lines of the first text (`Replacement.replay?`), this
gives the lines of the second one (`LineDiff.replay?_ofTexts`). No text can imitate a header, since
its lines stand behind a mark, and none can end a line early, since lines hold no line feed;
carriage returns are characters like any other.
-/

namespace MavenUpgrade

/-- Lines that stand in the place of others. Lines are numbered from one, before and after. -/
structure Replacement where
  oldStart : Nat
  old : List String
  newStart : Nat
  new : List String
  deriving DecidableEq, Repr

namespace Replacement

/-! ## Reading a written difference -/

/-- The lines of a text in which each ends in a line feed. -/
def writtenLines? (text : String) : Option (List (List Char)) :=
  let pieces := Text.splitWhere (· == '\n') text.toList
  if pieces.getLast? = some [] then some pieces.dropLast else none

/-- A range of lines: the number of the first, and how many there are if it is not one. -/
def readRange? (range : List Char) : Option (Nat × Nat) :=
  match Text.splitWhere (· == ',') range with
  | [start] => (Text.digitsValue? 10 start).map fun n => (n, 1)
  | [start, count] => do
    let n ← Text.digitsValue? 10 start
    let k ← Text.digitsValue? 10 count
    some (n, k)
  | _ => none

/-- A header: the range before and the range after. -/
def readHeader? (line : List Char) : Option ((Nat × Nat) × (Nat × Nat)) :=
  match Text.splitWhere (· == ' ') line with
  | [['@', '@'], '-' :: old, '+' :: new, ['@', '@']] => do
    let before ← readRange? old
    let after ← readRange? new
    some (before, after)
  | _ => none

/-- The text of a line behind its mark. -/
def readMarked? (mark : Char) : List Char → Option String
  | c :: cs => if c = mark then some (String.ofList cs) else none
  | [] => none

/-- The next lines, as many as they are said to be, without their mark. -/
def readBlock? (mark : Char) (count : Nat) (lines : List (List Char)) : Option (List String) :=
  if count ≤ lines.length then (lines.take count).mapM (readMarked? mark) else none

/-- The replacements that written lines show. -/
def readAll? : List (List Char) → Option (List Replacement)
  | [] => some []
  | header :: lines => do
    let (before, after) ← readHeader? header
    let old ← readBlock? '-' before.2 lines
    let new ← readBlock? '+' after.2 (lines.drop before.2)
    let rest ← readAll? (lines.drop (before.2 + after.2))
    some (⟨before.1, old, after.1, new⟩ :: rest)
termination_by lines => lines.length
decreasing_by
  rw [List.length_drop, List.length_cons]
  omega

/-! ## Carrying out replacements -/

/-- The lines that replacements leave of the lines from the given numbers on: lines in front of a
replacement are kept, and those that it replaces have to be there. -/
def patch? (oldNext newNext : Nat) : List Replacement → List String → Option (List String)
  | [], lines => some lines
  | r :: rs, lines =>
    let kept := lines.take (r.oldStart - oldNext)
    let rest := lines.drop (r.oldStart - oldNext)
    if oldNext + kept.length = r.oldStart ∧ newNext + kept.length = r.newStart ∧ r.old <+: rest then
      (patch? (r.oldStart + r.old.length) (r.newStart + r.new.length) rs
        (rest.drop r.old.length)).map (kept ++ r.new ++ ·)
    else none

/-- A written difference carried out on lines. -/
def replay? (written : String) (lines : List String) : Option (List String) := do
  let shown ← writtenLines? written
  let rs ← readAll? shown
  patch? 1 1 rs lines

/-- The number of headers among the written lines. -/
def headerCount? (written : String) : Option Nat :=
  (writtenLines? written).map fun lines => lines.countP (['@', '@'].isPrefixOf ·)

end Replacement

/-! ## Numbers and lines in writing -/

namespace Text

theorem digitValue?_of_isDigit {c : Char} (h : c.isDigit = true) :
    digitValue? 10 c = some (c.toNat - '0'.toNat) := by
  have hc := Char.isDigit_iff_toNat.mp h
  have h0 : '0'.toNat = 48 := rfl
  have h9 : '9'.toNat = 57 := rfl
  unfold digitValue?
  dsimp only
  rw [if_pos h]
  apply Option.filter_eq_some_iff.mpr
  refine ⟨rfl, ?_⟩
  rw [decide_eq_true_eq]
  omega

/-- Digits are read from the left, behind the value of those in front of them. -/
theorem foldlM_digitValue? {digits : List Char} (h : ∀ c ∈ digits, c.isDigit = true) (start : Nat) :
    digits.foldlM (fun n c => (digitValue? 10 c).map (10 * n + ·)) start =
      some (Nat.ofDigitChars 10 digits start) := by
  induction digits generalizing start with
  | nil => rfl
  | cons c digits ih =>
    rw [List.forall_mem_cons] at h
    rw [List.foldlM_cons, digitValue?_of_isDigit h.1, Nat.ofDigitChars_cons]
    exact ih h.2 _

/-- A number is read back from its decimal digits. -/
theorem digitsValue?_toDigits (n : Nat) : digitsValue? 10 (Nat.toDigits 10 n) = some n := by
  unfold digitsValue?
  rw [if_neg, foldlM_digitValue?, Nat.ofDigitChars_ten_toDigits]
  · intro c hc
    exact Nat.isDigit_of_mem_toDigits (by decide) (by decide) hc
  · rw [List.isEmpty_iff]
    exact Nat.toDigits_ne_nil

/-- A character that is no digit is not among the digits of a number. -/
theorem not_mem_toDigits {c : Char} (h : c.isDigit = false) (n : Nat) : c ∉ Nat.toDigits 10 n := by
  intro hc
  rw [Nat.isDigit_of_mem_toDigits (by decide) (by decide) hc] at h
  cases h

/-- Lines that hold no line feed are the pieces of the text that they make up, but for the empty one
at its end. -/
theorem splitWhere_joinLines {ls : List String} (h : ∀ l ∈ ls, '\n' ∉ l.toList) :
    splitWhere (· == '\n') (joinLines ls).toList = ls.map String.toList ++ [[]] := by
  induction ls with
  | nil => rfl
  | cons l ls ih =>
    rw [List.forall_mem_cons] at h
    have hcons : (joinLines (l :: ls)).toList = l.toList ++ '\n' :: (joinLines ls).toList := by
      unfold joinLines
      rw [List.map_cons, String.join_cons, String.toList_append, String.toList_append,
        List.append_assoc]
      rfl
    rw [hcons, splitWhere_append_cons rfl, splitWhere_of_not_mem h.1, ih h.2]
    rfl

end Text

/-! ## Reading back what is written -/

namespace Replacement

/-- Lines that hold no line feed are read back as they are written. -/
theorem writtenLines?_joinLines {ls : List String} (h : ∀ l ∈ ls, '\n' ∉ l.toList) :
    writtenLines? (joinLines ls) = some (ls.map String.toList) := by
  unfold writtenLines?
  rw [Text.splitWhere_joinLines h]
  dsimp only
  rw [List.getLast?_concat, if_pos rfl, List.dropLast_concat]

theorem readRange?_start (n : Nat) : readRange? (Nat.toDigits 10 n) = some (n, 1) := by
  unfold readRange?
  rw [Text.splitWhere_of_not_mem (Text.not_mem_toDigits rfl n)]
  dsimp only
  rw [Text.digitsValue?_toDigits]
  rfl

theorem readRange?_start_count (n k : Nat) :
    readRange? (Nat.toDigits 10 n ++ ',' :: Nat.toDigits 10 k) = some (n, k) := by
  unfold readRange?
  rw [Text.splitWhere_append_cons rfl, Text.splitWhere_of_not_mem (Text.not_mem_toDigits rfl n),
    Text.splitWhere_of_not_mem (Text.not_mem_toDigits rfl k)]
  simp only [List.singleton_append, Text.digitsValue?_toDigits]
  rfl

/-- A header is read range by range. -/
theorem readHeader?_ranges {old new : List Char} (hold : ' ' ∉ old) (hnew : ' ' ∉ new)
    {before after : Nat × Nat} (hbefore : readRange? old = some before)
    (hafter : readRange? new = some after) :
    readHeader? ("@@ -".toList ++ old ++ " +".toList ++ new ++ " @@".toList) =
      some (before, after) := by
  have hline : "@@ -".toList ++ old ++ " +".toList ++ new ++ " @@".toList =
      ['@', '@'] ++ ' ' :: ('-' :: old ++ ' ' :: ('+' :: new ++ ' ' :: ['@', '@'])) := by
    simp
  have hmarked {cs : List Char} {c : Char} (hc : c ≠ ' ') (hcs : ' ' ∉ cs) : ' ' ∉ c :: cs := by
    intro hmem
    rcases List.mem_cons.mp hmem with rfl | hmem
    · exact hc rfl
    · exact hcs hmem
  unfold readHeader?
  rw [hline, Text.splitWhere_append_cons rfl, Text.splitWhere_append_cons rfl,
    Text.splitWhere_append_cons rfl, Text.splitWhere_of_not_mem (by decide),
    Text.splitWhere_of_not_mem (hmarked (by decide) hold),
    Text.splitWhere_of_not_mem (hmarked (by decide) hnew)]
  simp only [List.singleton_append, hbefore, hafter]
  rfl

/-- Marked lines in front of others are read back without their mark. -/
theorem readBlock?_append (mark : Char) (ls : List String) (rest : List (List Char)) :
    readBlock? mark ls.length (ls.map (fun l => mark :: l.toList) ++ rest) = some ls := by
  unfold readBlock?
  rw [if_pos (by simp), List.take_left' (by simp)]
  induction ls with
  | nil => rfl
  | cons l ls ih =>
    rw [List.map_cons, List.mapM_cons, ih]
    simp [readMarked?]

end Replacement

namespace Hunk

/-- What a hunk replaces, and by what. -/
def replacement : Hunk → Replacement
  | line number old new => ⟨number, [old], number, [new]⟩
  | whole old new => ⟨1, old, 1, new⟩

/-- The lines of the two texts that a hunk shows. -/
def contents (h : Hunk) : List String :=
  h.replacement.old ++ h.replacement.new

/-- The lines of a hunk are a header that gives its ranges, then the lines before, then those
after. -/
theorem exists_lines_eq (h : Hunk) :
    ∃ header, Replacement.readHeader? header =
        some ((h.replacement.oldStart, h.replacement.old.length),
          h.replacement.newStart, h.replacement.new.length) ∧
      ['@', '@'].isPrefixOf header = true ∧ '\n' ∉ header ∧
      h.lines.map String.toList = header ::
        (h.replacement.old.map (fun l => '-' :: l.toList) ++
          h.replacement.new.map (fun l => '+' :: l.toList)) := by
  cases h with
  | line number old new =>
    have hblank : ' ' ∉ Nat.toDigits 10 number := Text.not_mem_toDigits rfl number
    have hfeed : '\n' ∉ Nat.toDigits 10 number := Text.not_mem_toDigits rfl number
    have hrange := Replacement.readRange?_start number
    refine ⟨_, Replacement.readHeader?_ranges hblank hblank hrange hrange, rfl, ?_, ?_⟩
    · simp [hfeed]
    · simp [lines, replacement, Nat.toList_repr]
  | whole old new =>
    have hblank (n : Nat) : ' ' ∉ Nat.toDigits 10 1 ++ ',' :: Nat.toDigits 10 n := by
      simp [Text.not_mem_toDigits]
    have hfeed (n : Nat) : '\n' ∉ Nat.toDigits 10 n := Text.not_mem_toDigits rfl n
    have hrange := Replacement.readRange?_start_count 1
    refine ⟨_, Replacement.readHeader?_ranges (hblank _) (hblank _) (hrange old.length)
      (hrange new.length), rfl, ?_, ?_⟩
    · simp [hfeed]
    · have hone : Nat.toDigits 10 1 = ['1'] := rfl
      simp [lines, replacement, Nat.toList_repr, hone, Function.comp_def]

/-- The lines of a hunk hold no line feed if those that it shows hold none. -/
theorem not_mem_of_mem_lines {h : Hunk} (hcontents : ∀ l ∈ h.contents, '\n' ∉ l.toList) :
    ∀ l ∈ h.lines, '\n' ∉ l.toList := by
  obtain ⟨header, -, -, hheader, hlines⟩ := h.exists_lines_eq
  intro l hl
  have hmem := List.mem_map_of_mem (f := String.toList) hl
  unfold contents at hcontents
  rw [List.forall_mem_append] at hcontents
  rw [hlines, List.mem_cons, List.mem_append] at hmem
  rcases hmem with hmem | hmem | hmem
  · rwa [hmem]
  · obtain ⟨content, hcontent, hl⟩ := List.mem_map.mp hmem
    rw [← hl]
    simp [hcontents.1 content hcontent]
  · obtain ⟨content, hcontent, hl⟩ := List.mem_map.mp hmem
    rw [← hl]
    simp [hcontents.2 content hcontent]

/-- A hunk in front of further lines is read back. -/
theorem readAll?_lines_append (h : Hunk) (rest : List (List Char)) :
    Replacement.readAll? (h.lines.map String.toList ++ rest) =
      (Replacement.readAll? rest).map (h.replacement :: ·) := by
  obtain ⟨header, hheader, -, -, hlines⟩ := h.exists_lines_eq
  have hold := Replacement.readBlock?_append '-' h.replacement.old
    (h.replacement.new.map (fun l => '+' :: l.toList) ++ rest)
  have hnew := Replacement.readBlock?_append '+' h.replacement.new rest
  rw [hlines, List.cons_append, List.append_assoc, Replacement.readAll?, hheader]
  simp only [Option.bind_eq_bind, Option.bind_some]
  rw [hold, List.drop_left' (by simp), hnew, ← List.append_assoc, List.drop_left' (by simp)]
  cases Replacement.readAll? rest <;> rfl

/-- **Hunks are read back from the lines that show them.** -/
theorem readAll?_flatMap_lines (hs : List Hunk) :
    Replacement.readAll? ((hs.flatMap lines).map String.toList) = some (hs.map replacement) := by
  induction hs with
  | nil => rw [List.flatMap_nil, List.map_nil, Replacement.readAll?, List.map_nil]
  | cons h hs ih =>
    rw [List.flatMap_cons, List.map_append, readAll?_lines_append, ih]
    rfl

/-- Of the lines of a hunk one is a header. -/
theorem countP_lines (h : Hunk) :
    (h.lines.map String.toList).countP (['@', '@'].isPrefixOf ·) = 1 := by
  obtain ⟨header, -, hheader, -, hlines⟩ := h.exists_lines_eq
  have hmarked (mark : Char) (hmark : mark ≠ '@') (ls : List String) :
      (ls.map fun l => mark :: l.toList).countP (['@', '@'].isPrefixOf ·) = 0 := by
    rw [List.countP_eq_zero]
    intro line hline
    obtain ⟨l, -, rfl⟩ := List.mem_map.mp hline
    simp [List.isPrefixOf, hmark.symm]
  rw [hlines, List.countP_cons_of_pos hheader, List.countP_append, hmarked '-' (by decide),
    hmarked '+' (by decide)]

theorem countP_flatMap_lines (hs : List Hunk) :
    ((hs.flatMap lines).map String.toList).countP (['@', '@'].isPrefixOf ·) = hs.length := by
  induction hs with
  | nil => rfl
  | cons h hs ih =>
    rw [List.flatMap_cons, List.map_append, List.countP_append, countP_lines, ih, List.length_cons,
      Nat.add_comm]

end Hunk

/-! ## Replaying the hunks -/

namespace Replacement

/-- A line in front of the first replacement is kept. -/
theorem patch?_cons {oldNext newNext : Nat} {rs : List Replacement}
    (h : ∀ r ∈ rs.head?, oldNext < r.oldStart) (l : String) (ls : List String) :
    patch? oldNext newNext rs (l :: ls) =
      (patch? (oldNext + 1) (newNext + 1) rs ls).map (l :: ·) := by
  cases rs with
  | nil => rfl
  | cons r rs =>
    have hlt : oldNext < r.oldStart := h r rfl
    have hskip : r.oldStart - oldNext = r.oldStart - (oldNext + 1) + 1 := by omega
    unfold patch?
    rw [hskip, List.take_succ_cons, List.drop_succ_cons]
    dsimp only
    -- the kept line counts as the next one
    have hnext (next k : Nat) : next + (k + 1) = next + 1 + k := by omega
    rw [List.length_cons, hnext oldNext, hnext newNext]
    split
    · rw [Option.map_map]
      rfl
    · rfl

end Replacement

namespace Hunk

theorem le_oldStart_of_mem_ofLines {number : Nat} {olds news : List String} {h : Hunk}
    (hmem : h ∈ ofLines number olds news) : number ≤ h.replacement.oldStart := by
  induction olds generalizing number news with
  | nil => cases hmem
  | cons old olds ih =>
    cases news with
    | nil => cases hmem
    | cons new news =>
      rw [ofLines] at hmem
      split at hmem
      · have hle := ih hmem
        omega
      · rcases List.mem_cons.mp hmem with rfl | hmem
        · exact le_rfl
        · have hle := ih hmem
          omega

/-- The hunks of lines that differ turn the lines before into those after. -/
theorem patch?_ofLines (number : Nat) {olds news : List String} (h : olds.length = news.length) :
    Replacement.patch? number number ((ofLines number olds news).map replacement) olds =
      some news := by
  induction olds generalizing number news with
  | nil =>
    obtain rfl : news = [] := List.length_eq_zero_iff.mp h.symm
    rfl
  | cons old olds ih =>
    cases news with
    | nil => cases h
    | cons new news =>
      have hrest := ih (number + 1) (Nat.succ.inj h)
      rw [ofLines]
      split
      · next heq =>
        -- the hunks that follow are behind this line
        subst heq
        rw [Replacement.patch?_cons, hrest]
        · rfl
        · intro r hr
          obtain ⟨later, hlater, rfl⟩ := List.mem_map.mp (List.mem_of_head? hr)
          have hle := le_oldStart_of_mem_ofLines hlater
          omega
      · rw [List.map_cons]
        unfold Replacement.patch?
        simp [replacement, hrest]

/-- **The hunks between lists of lines turn the one into the other.** -/
theorem patch?_between (before after : List String) :
    Replacement.patch? 1 1 ((between before after).map replacement) before = some after := by
  unfold between
  split
  · next hlength => exact patch?_ofLines 1 hlength
  · simp [Replacement.patch?, replacement]

theorem ofLines_eq_nil_iff (number : Nat) {olds news : List String}
    (h : olds.length = news.length) : ofLines number olds news = [] ↔ olds = news := by
  induction olds generalizing number news with
  | nil =>
    obtain rfl : news = [] := List.length_eq_zero_iff.mp h.symm
    exact iff_of_true rfl rfl
  | cons old olds ih =>
    cases news with
    | nil => cases h
    | cons new news =>
      rw [ofLines]
      split
      · next heq => simp [ih (number + 1) (Nat.succ.inj h), heq]
      · next hne => simp [hne]

theorem between_eq_nil_iff (before after : List String) :
    between before after = [] ↔ before = after := by
  unfold between
  split
  · next hlength => exact ofLines_eq_nil_iff 1 hlength
  · next hlength =>
    constructor
    · intro h
      cases h
    · rintro rfl
      exact absurd rfl hlength

theorem mem_of_mem_ofLines {number : Nat} {olds news : List String} {h : Hunk}
    (hmem : h ∈ ofLines number olds news) {l : String} (hl : l ∈ h.contents) :
    l ∈ olds ∨ l ∈ news := by
  induction olds generalizing number news with
  | nil => cases hmem
  | cons old olds ih =>
    cases news with
    | nil => cases hmem
    | cons new news =>
      have hrest (hmem : h ∈ ofLines (number + 1) olds news) : l ∈ old :: olds ∨ l ∈ new :: news :=
        (ih hmem).imp (List.mem_cons_of_mem old) (List.mem_cons_of_mem new)
      rw [ofLines] at hmem
      split at hmem
      · exact hrest hmem
      · rcases List.mem_cons.mp hmem with rfl | hmem
        · have hpair : l = old ∨ l = new := by simpa [contents, replacement] using hl
          rcases hpair with rfl | rfl
          · exact Or.inl List.mem_cons_self
          · exact Or.inr List.mem_cons_self
        · exact hrest hmem

/-- The hunks between lists of lines show no other lines. -/
theorem mem_of_mem_contents {before after : List String} {h : Hunk}
    (hmem : h ∈ between before after) {l : String} (hl : l ∈ h.contents) :
    l ∈ before ∨ l ∈ after := by
  unfold between at hmem
  split at hmem
  · exact mem_of_mem_ofLines hmem hl
  · rw [List.mem_singleton.mp hmem] at hl
    exact List.mem_append.mp hl

end Hunk

namespace LineDiff

theorem not_mem_of_mem_textLines {text l : String} (h : l ∈ textLines text) :
    '\n' ∉ l.toList := by
  unfold textLines at h
  obtain ⟨line, hline, rfl⟩ := List.mem_map.mp h
  rw [String.toList_ofList]
  exact Text.not_mem_of_mem_lines hline

/-- **The written difference of two texts turns the lines of the first into those of the second**,
its number of hunks is the number of headers in it, and there is none exactly when the texts have
the same lines. -/
theorem replay?_ofTexts (before after : String) :
    Replacement.replay? (joinLines (ofTexts before after).lines) (textLines before) =
        some (textLines after) ∧
      Replacement.headerCount? (joinLines (ofTexts before after).lines) =
        some (ofTexts before after).count ∧
      ((ofTexts before after).count = 0 ↔ textLines before = textLines after) := by
  have hlines : ∀ l ∈ (ofTexts before after).lines, '\n' ∉ l.toList := by
    intro l hl
    obtain ⟨h, hmem, hl⟩ := List.mem_flatMap.mp hl
    apply Hunk.not_mem_of_mem_lines _ l hl
    intro content hcontent
    rcases Hunk.mem_of_mem_contents hmem hcontent with hcontent | hcontent
    · exact not_mem_of_mem_textLines hcontent
    · exact not_mem_of_mem_textLines hcontent
  have hwritten := Replacement.writtenLines?_joinLines hlines
  refine ⟨?_, ?_, ?_⟩
  · unfold Replacement.replay?
    have hread : Replacement.readAll? ((ofTexts before after).lines.map String.toList) =
        some ((hunks before after).map Hunk.replacement) := Hunk.readAll?_flatMap_lines _
    simp only [hwritten, hread, Option.bind_eq_bind, Option.bind_some]
    exact Hunk.patch?_between _ _
  · unfold Replacement.headerCount?
    rw [hwritten, Option.map_some]
    exact congrArg some (Hunk.countP_flatMap_lines _)
  · show (hunks before after).length = 0 ↔ _
    rw [List.length_eq_zero_iff]
    exact Hunk.between_eq_nil_iff _ _

/-- A line that looks like a header stands behind a mark. -/
example : ofTexts "a\n@@ -1 +1 @@\r\nc" "a\n+2\nc\n" =
    ⟨["@@ -2 +2 @@", "-@@ -1 +1 @@", "++2"], 1⟩ := by
  decide +kernel

end LineDiff

end MavenUpgrade

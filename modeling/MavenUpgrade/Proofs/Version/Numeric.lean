import Mathlib
import MavenUpgrade.Proofs.Text.Splitting
import MavenUpgrade.Proofs.Version.Order
import MavenUpgrade.Proofs.Version.Reading

/-!
# Numeric versions

A version of numbers with dots between them is read as these numbers, without the zeros at the end
(`Version.IsNumeric.parts_eq`). Two such versions compare number by number, the shorter one going on
with zeros (`Version.compareText_of_isNumeric`).
-/

namespace MavenUpgrade

/-! ## Sequences of numbers -/

namespace Version

/-- The order of two sequences of numbers from the left, the shorter one filled up with zeros. -/
def comparePadded (ms ns : List Nat) : Ordering :=
  let length := max ms.length ns.length
  compare (ms.rightpad length 0) (ns.rightpad length 0)

theorem comparePadded_swap (ms ns : List Nat) :
    comparePadded ns ms = (comparePadded ms ns).swap := by
  unfold comparePadded
  rw [max_comm]
  exact Std.OrientedOrd.eq_swap

theorem comparePadded_cons_cons (m n : Nat) (ms ns : List Nat) :
    comparePadded (m :: ms) (n :: ns) = (compare m n).then (comparePadded ms ns) := by
  have hcons (k : Nat) (l : List Nat) (length : Nat) :
      (k :: l).rightpad (length + 1) 0 = k :: l.rightpad length 0 := by
    simp [List.rightpad]
  have hmax : max (m :: ms).length (n :: ns).length = max ms.length ns.length + 1 := by
    simp only [List.length_cons]
    omega
  unfold comparePadded
  dsimp only
  rw [hmax, hcons, hcons, List.compare_eq_compareLex, List.compareLex_cons_cons]

theorem comparePadded_cons_nil (m : Nat) (ms : List Nat) :
    comparePadded (m :: ms) [] = (compare m 0).then (comparePadded ms []) := by
  unfold comparePadded
  simp [List.rightpad, List.replicate_succ, List.compare_eq_compareLex]

theorem comparePadded_nil_cons (n : Nat) (ns : List Nat) :
    comparePadded [] (n :: ns) = (compare 0 n).then (comparePadded [] ns) := by
  rw [comparePadded_swap, comparePadded_cons_nil, Ordering.swap_then, ← comparePadded_swap,
    ← Std.OrientedOrd.eq_swap]

/-- Numbers without the zeros at their end. -/
def dropZeros (ns : List Nat) : List Nat :=
  ns.rdropWhile (· == 0)

theorem dropZeros_cons (n : Nat) (ns : List Nat) :
    dropZeros (n :: ns) = if n = 0 ∧ dropZeros ns = [] then [] else n :: dropZeros ns := by
  unfold dropZeros List.rdropWhile
  rw [List.reverse_cons, List.dropWhile_append]
  by_cases hns : ns.reverse.dropWhile (· == 0) = []
  · by_cases hn : n = 0 <;> simp [hns, hn]
  · simp [hns]

/-- Zeros at the end do not matter. -/
theorem comparePadded_dropZeros_left (ms ns : List Nat) :
    comparePadded (dropZeros ms) ns = comparePadded ms ns := by
  induction ms generalizing ns with
  | nil => rfl
  | cons m ms ih =>
    rw [dropZeros_cons]
    split
    · next hzero =>
      obtain ⟨rfl, hms⟩ := hzero
      rw [hms] at ih
      cases ns with
      | nil =>
        rw [comparePadded_cons_nil, ← ih]
        rfl
      | cons n ns => rw [comparePadded_cons_cons, comparePadded_nil_cons, ih]
    · cases ns with
      | nil => rw [comparePadded_cons_nil, comparePadded_cons_nil, ih]
      | cons n ns => rw [comparePadded_cons_cons, comparePadded_cons_cons, ih]

theorem comparePadded_dropZeros (ms ns : List Nat) :
    comparePadded (dropZeros ms) (dropZeros ns) = comparePadded ms ns := by
  rw [comparePadded_dropZeros_left, comparePadded_swap, comparePadded_dropZeros_left,
    ← comparePadded_swap]

end Version

namespace Part

open Version

theorem compareWithNone_numbers (ms : List Nat) :
    compareWithNone (ms.map number) = comparePadded ms [] := by
  induction ms with
  | nil => rfl
  | cons m ms ih => rw [List.map_cons, compareWithNone, comparePadded_cons_nil, ih]

/-- Numbers alone compare number by number. -/
theorem compareParts_numbers (ms ns : List Nat) :
    compareParts (ms.map number) (ns.map number) = comparePadded ms ns := by
  induction ms generalizing ns with
  | nil =>
    rw [List.map_nil, compareParts_nil_left, compareWithNone_numbers, ← comparePadded_swap]
  | cons m ms ih =>
    cases ns with
    | nil => rw [List.map_nil, compareParts_nil_right, compareWithNone_numbers]
    | cons n ns => rw [List.map_cons, List.map_cons, compareParts, comparePadded_cons_cons, ih]

/-- Of numbers those zeros are dropped that stand at the end or in front of a nested list. -/
theorem normalise_numbers_append (ns : List Nat) {ps : List Part}
    (h : listEnds (normalise ps) = true) :
    normalise (ns.map number ++ ps) = (dropZeros ns).map number ++ normalise ps := by
  induction ns with
  | nil => rfl
  | cons n ns ih =>
    have hstep : normalise ((n :: ns).map number ++ ps) =
        prepend (number n) (normalise (ns.map number ++ ps)) := rfl
    rw [hstep, ih, dropZeros_cons]
    cases hns : dropZeros ns with
    | nil => by_cases hn : n = 0 <;> simp [prepend, isNull, hn, h]
    | cons m ms => simp [prepend, listEnds]

end Part

/-! ## Reading numbers -/

namespace Version

/-- A text of one or more runs of digits with dots between them. -/
def IsNumeric (text : String) : Prop :=
  ∀ run ∈ Text.splitWhere (· == '.') text.toList, run ≠ [] ∧ ∀ c ∈ run, c.isDigit = true

instance (text : String) : Decidable (IsNumeric text) :=
  decidable_of_iff ((Text.splitWhere (· == '.') text.toList).all fun run =>
    !run.isEmpty && run.all Char.isDigit) (by simp [IsNumeric])

/-- The numbers that the runs between the dots write in decimal. -/
def components (text : String) : List Nat :=
  (Text.splitWhere (· == '.') text.toList).map fun run => Nat.ofDigitChars 10 run 0

theorem IsNumeric.isDigit_of_mem {text : String} (h : IsNumeric text) {c : Char}
    (hc : c ∈ text.toList) (hdot : c ≠ '.') : c.isDigit = true := by
  obtain ⟨run, hrun, hmem⟩ := Text.exists_mem_splitWhere (p := (· == '.')) hc
    (beq_eq_false_iff_ne.mpr hdot)
  exact (h run hrun).2 c hmem

theorem IsNumeric.visible {text : String} (h : IsNumeric text) :
    ∀ c ∈ text.toList, 0x20 < c.toNat ∧ c.toNat < 0x80 := by
  intro c hc
  by_cases hdot : c = '.'
  · subst hdot
    decide
  · have hdigit := Char.isDigit_iff_toNat.mp (h.isDigit_of_mem hc hdot)
    have h0 : '0'.toNat = 48 := rfl
    have h9 : '9'.toNat = 57 := rfl
    omega

/-- A numeric text has no letters to lower. -/
theorem IsNumeric.map_toLower {text : String} (h : IsNumeric text) :
    text.toList.map Char.toLower = text.toList := by
  have hkeep : ∀ c ∈ text.toList, c.toLower = c := by
    intro c hc
    by_cases hdot : c = '.'
    · subst hdot
      rfl
    · exact Text.toLower_of_isDigit (h.isDigit_of_mem hc hdot)
  rw [List.map_congr_left hkeep, List.map_id']

end Version

namespace Part

/-- Runs of digits with dots between them are numbers. -/
theorem ofTokens_runs_append {runs : List (List Char)} (hne : runs ≠ [])
    (hruns : ∀ run ∈ runs, run ≠ [] ∧ ∀ c ∈ run, c.isDigit = true) {rest : List Char}
    (hrest : Token.beginDigits (Token.ofChars rest) = false) :
    ofTokens false (Token.ofChars (['.'].intercalate runs ++ rest)) =
      (runs.map fun run => Nat.ofDigitChars 10 run 0).map number ++
        ofTokens true (Token.ofChars rest) := by
  induction runs with
  | nil => exact absurd rfl hne
  | cons run runs ih =>
    obtain ⟨hrunNe, hdigits⟩ := hruns run List.mem_cons_self
    cases runs with
    | nil =>
      have hone : ['.'].intercalate [run] = run := by simp
      rw [hone, Token.ofChars_digits_append hrunNe hdigits hrest]
      rfl
    | cons next runs =>
      have hnext := ih (List.cons_ne_nil next runs) fun r hr =>
        hruns r (List.mem_cons_of_mem run hr)
      rw [List.intercalate_cons_cons, List.append_assoc, List.append_assoc,
        Token.ofChars_digits_append hrunNe hdigits rfl, List.singleton_append,
        Token.ofChars_dot_cons]
      exact congrArg (number _ :: ·) hnext

end Part

namespace Version

/-- A numeric text and what follows it, which is no digit, are read one after the other. -/
theorem IsNumeric.ofTokens_append {text : String} (h : IsNumeric text) {rest : List Char}
    (hrest : Token.beginDigits (Token.ofChars rest) = false) :
    Part.ofTokens false (Token.ofChars (text.toList ++ rest)) =
      (components text).map .number ++ Part.ofTokens true (Token.ofChars rest) := by
  have hruns := Part.ofTokens_runs_append (Text.splitWhere_ne_nil _ _) h hrest
  rw [Text.intercalate_splitWhere] at hruns
  exact hruns

/-- The parts of a numeric version are its numbers without the zeros at the end. -/
theorem IsNumeric.parts_eq {text : String} (h : IsNumeric text) :
    (ofText text).parts = (dropZeros (components text)).map .number := by
  have htokens := @IsNumeric.ofTokens_append text h [] rfl
  rw [List.append_nil] at htokens
  unfold ofText
  rw [canonicalText_of_visible h.visible, h.map_toLower, htokens]
  have hnormalise := @Part.normalise_numbers_append (components text) [] rfl
  exact hnormalise.trans (List.append_nil _)

/-- **Numeric versions compare number by number**, the shorter one filled up with zeros. -/
theorem compareText_of_isNumeric {a b : String} (ha : IsNumeric a) (hb : IsNumeric b) :
    compareText a b = comparePadded (components a) (components b) := by
  have hparts : compareText a b = Part.compareParts (ofText a).parts (ofText b).parts := rfl
  rw [hparts, ha.parts_eq, hb.parts_eq, Part.compareParts_numbers, comparePadded_dropZeros]

theorem compareText_of_isNumeric_long :
    IsNumeric "01.0.99999999999999999999" ∧ IsNumeric "1.00.100000000000000000000.0" ∧
      compareText "01.0.99999999999999999999" "1.00.100000000000000000000.0" = .lt := by
  have ha : IsNumeric "01.0.99999999999999999999" := by decide +kernel
  have hb : IsNumeric "1.00.100000000000000000000.0" := by decide +kernel
  refine ⟨ha, hb, ?_⟩
  rw [compareText_of_isNumeric ha hb]
  decide +kernel

end Version

end MavenUpgrade

import Mathlib
import MavenUpgrade.Proofs.Version.Order

/-!
# Nested parts

The parts of a version as the lists that they are nested in, each list being an item of another one,
with the comparison that goes down into them (`Item.compareList`). It orders the numbers by their
digits and the qualifiers by a text, and it is reversed when the lists change sides, whatever is
nested in them and how deep (`Item.compareList_swap`). On the parts of versions it is the order of
versions (`Item.compareList_ofParts`).
-/

namespace MavenUpgrade

/-- A part of a version as it is nested: a number by its digits, a qualifier by the text that orders
it, or a list. -/
inductive Item where
  | number (digits : List Char)
  | qualifier (key : List Char)
  | list (items : List Item)

namespace Item

/-! ## The comparison of nested items -/

/-- The order of two numbers without leading zeros: the longer one is higher. -/
def compareDigits (a b : List Char) : Ordering :=
  (compare a.length b.length).then (compare a b)

/-- The order of an item and a missing one. Of a list only the first item counts. -/
def compareWithNone : Item → Ordering
  | number digits => if digits = ['0'] then .eq else .gt
  | qualifier key => compare key ['5']
  | list [] => .eq
  | list (i :: _) => i.compareWithNone

/-- The order of some items and as many missing ones. -/
def compareListWithNone : List Item → Ordering
  | [] => .eq
  | i :: is => i.compareWithNone.then (compareListWithNone is)

/-- The order of missing items and as many others. -/
def compareNoneWithList : List Item → Ordering
  | [] => .eq
  | i :: is => i.compareWithNone.swap.then (compareNoneWithList is)

mutual

/-- The order of two items. -/
def compareItem : Item → Item → Ordering
  | number a, number b => compareDigits a b
  | number _, _ => .gt
  | qualifier p, qualifier q => compare p q
  | qualifier _, _ => .lt
  | list _, number _ => .lt
  | list _, qualifier _ => .gt
  | list is, list js => compareList is js

/-- The order of two lists of items, the shorter one filled up with missing ones. -/
def compareList : List Item → List Item → Ordering
  | [], js => compareNoneWithList js
  | i :: is, [] => compareListWithNone (i :: is)
  | i :: is, j :: js => (compareItem i j).then (compareList is js)

end

theorem compareDigits_self (a : List Char) : compareDigits a a = .eq := by
  simp [compareDigits]

theorem compareDigits_swap (a b : List Char) : compareDigits b a = (compareDigits a b).swap := by
  unfold compareDigits
  rw [Ordering.swap_then, ← Std.OrientedOrd.eq_swap, ← Std.OrientedOrd.eq_swap]

theorem compareNoneWithList_eq (is : List Item) :
    compareNoneWithList is = (compareListWithNone is).swap := by
  induction is with
  | nil => rfl
  | cons i is ih => rw [compareNoneWithList, compareListWithNone, Ordering.swap_then, ih]

mutual

/-- An item is as high as itself. -/
theorem compareItem_self (i : Item) : compareItem i i = .eq := by
  cases i with
  | number digits => exact compareDigits_self digits
  | qualifier key => exact Std.ReflOrd.compare_self
  | list items => exact compareList_self items

/-- A list is as high as itself. -/
theorem compareList_self (is : List Item) : compareList is is = .eq := by
  cases is with
  | nil => rfl
  | cons i is =>
    rw [compareList, compareItem_self i, compareList_self is]
    rfl

end

mutual

/-- The comparison of two items is reversed when they change sides. -/
theorem compareItem_swap (i j : Item) : compareItem j i = (compareItem i j).swap := by
  cases i with
  | number a =>
    cases j with
    | number b => exact compareDigits_swap a b
    | qualifier q => rfl
    | list js => rfl
  | qualifier p =>
    cases j with
    | number b => rfl
    | qualifier q => exact Std.OrientedOrd.eq_swap
    | list js => rfl
  | list is =>
    cases j with
    | number b => rfl
    | qualifier q => rfl
    | list js => exact compareList_swap is js

/-- The comparison of two lists is reversed when they change sides. -/
theorem compareList_swap (is js : List Item) : compareList js is = (compareList is js).swap := by
  cases is with
  | nil =>
    cases js with
    | nil => rfl
    | cons j js =>
      rw [compareList, compareList, compareNoneWithList_eq, Ordering.swap_swap]
  | cons i is =>
    cases js with
    | nil => rw [compareList, compareList, compareNoneWithList_eq]
    | cons j js =>
      rw [compareList, compareList, Ordering.swap_then, compareItem_swap i j,
        compareList_swap is js]

end

end Item

/-! ## Texts in the place of values -/

theorem compare_chars_eq_lt_iff {s t : List Char} : compare s t = .lt ↔ s < t := by
  induction s generalizing t with
  | nil => cases t <;> simp
  | cons c s ih =>
    cases t with
    | nil => simp
    | cons d t =>
      rw [List.compare_eq_compareLex, List.compareLex_cons_cons, List.cons_lt_cons_iff, ← ih,
        Ordering.then_eq_lt, compare_lt_iff_lt, compare_eq_iff_eq]
      rfl

/-- Texts are in the order of their characters. -/
theorem compare_toList (s t : String) : compare s.toList t.toList = compare s t := by
  cases h : compare s t with
  | lt => exact compare_chars_eq_lt_iff.mpr (String.lt_iff_toList_lt.mp (compare_lt_iff_lt.mp h))
  | eq =>
    obtain rfl := compare_eq_iff_eq.mp h
    exact Std.ReflOrd.compare_self
  | gt =>
    rw [Std.OrientedOrd.eq_swap, Ordering.swap_eq_gt]
    exact compare_chars_eq_lt_iff.mpr (String.lt_iff_toList_lt.mp (compare_gt_iff_gt.mp h))

/-- A digit more decides only between numbers that are equal without it. -/
theorem compare_append_digit {c d : Char} (hc : c.isDigit = true) (hd : d.isDigit = true)
    (m n : Nat) :
    compare (10 * m + (c.toNat - '0'.toNat)) (10 * n + (d.toNat - '0'.toNat)) =
      (compare m n).then (compare c d) := by
  have hc' := Char.isDigit_iff_toNat.mp hc
  have hd' := Char.isDigit_iff_toNat.mp hd
  have h0 : '0'.toNat = 48 := rfl
  have h9 : '9'.toNat = 57 := rfl
  cases hmn : compare m n with
  | lt =>
    have hlt := Nat.compare_eq_lt.mp hmn
    exact Nat.compare_eq_lt.mpr (by omega)
  | gt =>
    have hgt := Nat.compare_eq_gt.mp hmn
    exact Nat.compare_eq_gt.mpr (by omega)
  | eq =>
    obtain rfl := Nat.compare_eq_eq.mp hmn
    show _ = compare c d
    rcases lt_trichotomy c d with hcd | rfl | hcd
    · have hlt : c.toNat < d.toNat := hcd
      rw [compare_lt_iff_lt.mpr hcd]
      exact Nat.compare_eq_lt.mpr (by omega)
    · rw [Nat.compare_eq_eq.mpr rfl]
      exact Std.ReflOrd.compare_self.symm
    · have hgt : d.toNat < c.toNat := hcd
      rw [compare_gt_iff_gt.mpr hcd]
      exact Nat.compare_eq_gt.mpr (by omega)

/-- As many digits on both sides compare as their texts, behind what stands in front of them. -/
theorem compare_ofDigitChars {a b : List Char} (hlength : a.length = b.length)
    (ha : ∀ c ∈ a, c.isDigit = true) (hb : ∀ c ∈ b, c.isDigit = true) (m n : Nat) :
    compare (Nat.ofDigitChars 10 a m) (Nat.ofDigitChars 10 b n) =
      (compare m n).then (compare a b) := by
  induction a generalizing b m n with
  | nil =>
    obtain rfl : b = [] := List.length_eq_zero_iff.mp hlength.symm
    exact Ordering.then_eq.symm
  | cons c a ih =>
    cases b with
    | nil => cases hlength
    | cons d b =>
      have hc : c.isDigit = true := ha c List.mem_cons_self
      have hd : d.isDigit = true := hb d List.mem_cons_self
      rw [Nat.ofDigitChars_cons, Nat.ofDigitChars_cons,
        ih (Nat.succ.inj hlength) (fun e he => ha e (List.mem_cons_of_mem c he))
          fun e he => hb e (List.mem_cons_of_mem d he),
        compare_append_digit hc hd, Ordering.then_assoc, List.compare_eq_compareLex,
        List.compareLex_cons_cons]

namespace Item

/-- Numbers are in the order of their decimal digits, of which there are more if it is higher. -/
theorem compareDigits_toDigits (m n : Nat) :
    compareDigits (Nat.toDigits 10 m) (Nat.toDigits 10 n) = compare m n := by
  have hshorter {m n : Nat} (h : (Nat.toDigits 10 m).length < (Nat.toDigits 10 n).length) :
      m < n := by
    have hpos : 0 < (Nat.toDigits 10 m).length := Nat.length_toDigits_pos
    have hm := (Nat.length_toDigits_le_iff (by decide) hpos).mp le_rfl
    have hn := mt (Nat.length_toDigits_le_iff (by decide) hpos).mpr (not_le.mpr h)
    omega
  unfold compareDigits
  cases hc : compare (Nat.toDigits 10 m).length (Nat.toDigits 10 n).length with
  | lt => exact (Nat.compare_eq_lt.mpr (hshorter (Nat.compare_eq_lt.mp hc))).symm
  | gt => exact (Nat.compare_eq_gt.mpr (hshorter (Nat.compare_eq_gt.mp hc))).symm
  | eq =>
    have hdigits (k : Nat) : ∀ c ∈ Nat.toDigits 10 k, c.isDigit = true := fun c hmem =>
      Nat.isDigit_of_mem_toDigits (by decide) (by decide) hmem
    have hvalues := compare_ofDigitChars (Nat.compare_eq_eq.mp hc) (hdigits m) (hdigits n) 0 0
    rw [Nat.ofDigitChars_ten_toDigits, Nat.ofDigitChars_ten_toDigits] at hvalues
    exact hvalues.symm

end Item

/-- The text that a qualifier is ordered by: the digit of its rank, and behind it its own text if it
is none of the known ones. -/
def Qualifier.sortKey : Qualifier → List Char
  | other text => '7' :: '-' :: text.toList
  | q => Nat.toDigits 10 q.rank

theorem Qualifier.compare_sortKey (p q : Qualifier) :
    compare p.sortKey q.sortKey = compare p q := by
  cases p with
  | other s =>
    cases q with
    | other t => exact compare_toList s t
    | _ => rfl
  | _ => cases q <;> rfl

namespace Item

/-! ## The items of a version -/

/-- The items that some parts stand for: each mark of a nested list opens one that holds all that
follows. -/
def ofParts : List Part → List Item
  | [] => []
  | .number n :: ps => number (Nat.toDigits 10 n) :: ofParts ps
  | .qualifier q :: ps => qualifier q.sortKey :: ofParts ps
  | .nest :: ps => [list (ofParts ps)]

theorem compareWithNone_number (n : Nat) :
    (number (Nat.toDigits 10 n)).compareWithNone = compare n 0 := by
  by_cases hn : n = 0
  · subst hn
    rfl
  · rw [Nat.compare_eq_gt.mpr (Nat.pos_of_ne_zero hn)]
    apply if_neg
    intro hzero
    -- the digit zero has no other value
    have hvalue := @Nat.ofDigitChars_ten_toDigits n
    rw [hzero] at hvalue
    exact hn hvalue.symm

theorem compareWithNone_qualifier (q : Qualifier) :
    (qualifier q.sortKey).compareWithNone = compare q .release :=
  Qualifier.compare_sortKey q .release

theorem compareWithNone_list (ps : List Part) :
    (list (ofParts ps)).compareWithNone = Part.compareHeadWithNone ps := by
  induction ps with
  | nil => rfl
  | cons p ps ih =>
    cases p with
    | number n => exact compareWithNone_number n
    | qualifier q => exact compareWithNone_qualifier q
    | nest => exact ih

theorem compareListWithNone_ofParts (ps : List Part) :
    compareListWithNone (ofParts ps) = Part.compareWithNone ps := by
  induction ps with
  | nil => rfl
  | cons p ps ih =>
    cases p with
    | number n =>
      rw [ofParts, compareListWithNone, compareWithNone_number, ih]
      rfl
    | qualifier q =>
      rw [ofParts, compareListWithNone, compareWithNone_qualifier, ih]
      rfl
    | nest =>
      rw [ofParts, compareListWithNone, compareWithNone_list]
      exact Ordering.then_eq

/-- **The order of versions goes down into their nested lists.** -/
theorem compareList_ofParts (ps qs : List Part) :
    compareList (ofParts ps) (ofParts qs) = Part.compareParts ps qs := by
  induction ps generalizing qs with
  | nil =>
    rw [ofParts, compareList, compareNoneWithList_eq, compareListWithNone_ofParts,
      Part.compareParts_nil_left]
  | cons p ps ih =>
    cases qs with
    | nil =>
      rw [Part.compareParts_nil_right, ← compareListWithNone_ofParts]
      cases p <;> rfl
    | cons q qs =>
      cases p with
      | number m =>
        cases q with
        | number n =>
          rw [ofParts, ofParts, compareList, compareItem, compareDigits_toDigits, ih]
          rfl
        | qualifier q => rfl
        | nest => rfl
      | qualifier p =>
        cases q with
        | number n => rfl
        | qualifier q =>
          rw [ofParts, ofParts, compareList, compareItem, Qualifier.compare_sortKey, ih]
          rfl
        | nest => rfl
      | nest =>
        cases q with
        | number n => rfl
        | qualifier q => rfl
        | nest =>
          rw [ofParts, ofParts, compareList, compareItem, ih]
          exact Ordering.then_eq

end Item

namespace Version

/-- The items of the version that a text names. -/
def items (text : String) : List Item :=
  Item.ofParts (ofText text).parts

theorem compareText_eq_compareList (a b : String) :
    compareText a b = Item.compareList (items a) (items b) :=
  (Item.compareList_ofParts _ _).symm

/-- **Every version is as high as itself, and the comparison is reversed when versions change
sides.** It compares the lists of items that the versions are made of, and so it is with all lists
of items, however deep they are nested and however long each of them is. -/
theorem compareText_reflexive_antisymmetric :
    (∀ a b : String, compareText a a = .eq ∧ compareText b a = (compareText a b).swap) ∧
      (∀ a b : String, compareText a b = Item.compareList (items a) (items b)) ∧
      ∀ is js : List Item, Item.compareList is is = .eq ∧
        Item.compareList js is = (Item.compareList is js).swap := by
  refine ⟨?_, compareText_eq_compareList, ?_⟩
  · intro a b
    rw [compareText_eq_compareList, compareText_eq_compareList, compareText_eq_compareList]
    exact ⟨Item.compareList_self _, Item.compareList_swap _ _⟩
  · intro is js
    exact ⟨Item.compareList_self is, Item.compareList_swap is js⟩

end Version

end MavenUpgrade

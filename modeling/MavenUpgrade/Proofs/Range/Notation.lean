import Mathlib
import MavenUpgrade.Proofs.Text.Splitting
import MavenUpgrade.Proofs.Text.Trim
import MavenUpgrade.Range.Reader

/-!
# The notation of ranges

A grammar of ranges, from the bounds over the single intervals up to the whole list of them
(`VersionRange.IsWritten`). Reading a text gives a range exactly when the text is written so, and
then it gives the intervals that are written there (`VersionRange.read_eq_ok_iff`); a text has at
most one reading.
-/

namespace MavenUpgrade

/-! ## Bounds -/

/-- What is written on one side of an interval: blanks where the side is open, or else a version,
with blanks around it or not. -/
inductive Bound.IsWritten (inclusive : Bool) : List Char → Option Bound → Prop where
  | unbounded {side : List Char} (hside : ∀ c ∈ side, Text.isBlank c = true) :
      IsWritten inclusive side none
  | version {before version after : List Char} (hbefore : ∀ c ∈ before, Text.isBlank c = true)
      (hafter : ∀ c ∈ after, Text.isBlank c = true) (htrimmed : Text.IsTrimmed version)
      (hne : version ≠ []) :
      IsWritten inclusive (before ++ version ++ after) (some ⟨String.ofList version, inclusive⟩)

/-- A side is read as the bound that is written there. -/
theorem Bound.ofSide_eq_iff {side : List Char} {inclusive : Bool} {bound? : Option Bound} :
    Bound.ofSide side inclusive = bound? ↔ Bound.IsWritten inclusive side bound? := by
  constructor
  · rintro rfl
    unfold Bound.ofSide
    dsimp only
    split
    · next hempty =>
      exact .unbounded (Text.trim_eq_nil_iff.mp (List.isEmpty_iff.mp hempty))
    · next hne =>
      -- the version stands between the blanks that are trimmed away
      have h : IsWritten inclusive (Text.around side (Text.trim side))
          (some ⟨String.ofList (Text.trim side), inclusive⟩) := by
        apply IsWritten.version
        · exact fun _ hc => Text.isBlank_of_mem_leadingBlanks hc
        · exact fun _ hc => Text.isBlank_of_mem_trailingBlanks hc
        · exact Text.isTrimmed_trim side
        · exact fun hnil => hne (List.isEmpty_iff.mpr hnil)
      rw [Text.around_trim] at h
      exact h
  · intro h
    cases h with
    | unbounded hside =>
      unfold Bound.ofSide
      rw [Text.trim_eq_nil_iff.mpr hside]
      rfl
    | version hbefore hafter htrimmed hne =>
      unfold Bound.ofSide
      rw [Text.trim_append_blanks hbefore hafter htrimmed hne]
      apply if_neg
      intro hempty
      exact hne (List.isEmpty_iff.mp hempty)

/-! ## Intervals -/

namespace Interval

/-- What is written between the brackets of an interval, given whether these are square: a single
version between square ones, or else two sides with a comma between them. -/
inductive IsInner (square closedSquare : Bool) : List Char → Interval → Prop where
  | single {version : List Char} {bound : Bound} (hsquare : square = true)
      (hclosedSquare : closedSquare = true) (hcomma : ',' ∉ version)
      (hversion : Bound.IsWritten true version (some bound)) :
      IsInner square closedSquare version ⟨some bound, some bound⟩
  | sides {lower upper : List Char} {lower? upper? : Option Bound} (hlowerComma : ',' ∉ lower)
      (hupperComma : ',' ∉ upper) (hlower : Bound.IsWritten square lower lower?)
      (hupper : Bound.IsWritten closedSquare upper upper?) :
      IsInner square closedSquare (lower ++ ',' :: upper) ⟨lower?, upper?⟩

/-- The text between two brackets is read as the interval that is written there. -/
theorem ofInner_eq_ok_iff {inner : List Char} {square closedSquare : Bool} {i : Interval} :
    ofInner inner square closedSquare = .ok i ↔ IsInner square closedSquare inner i := by
  constructor
  · intro h
    have hjoin := Text.intercalate_splitWhere ',' inner
    have hcomma (piece : List Char) (hp : piece ∈ Text.splitWhere (· == ',') inner) :
        ',' ∉ piece := Text.not_mem_of_mem_splitWhere hp
    unfold ofInner at h
    split at h
    · next single hs =>
      rw [hs] at hjoin hcomma
      obtain rfl : single = inner := by simpa using hjoin
      split at h
      · cases h
      · next hgood =>
        simp only [Bool.or_eq_true, Bool.not_eq_true', not_or, Bool.not_eq_false] at hgood
        obtain ⟨⟨hne, hsquare⟩, hclosed⟩ := hgood
        obtain rfl := Except.ok.inj h
        have hbound : Bound.ofSide single true =
            some ⟨String.ofList (Text.trim single), true⟩ := by
          unfold Bound.ofSide
          exact if_neg hne
        rw [hbound]
        exact .single hsquare hclosed (hcomma single List.mem_cons_self)
          (Bound.ofSide_eq_iff.mp hbound)
    · next lower upper hs =>
      rw [hs] at hjoin hcomma
      have hinner : inner = lower ++ ',' :: upper := by
        rw [← hjoin]
        simp [List.intercalate]
      obtain rfl := Except.ok.inj h
      rw [hinner]
      exact .sides (hcomma lower (by simp)) (hcomma upper (by simp))
        (Bound.ofSide_eq_iff.mp rfl) (Bound.ofSide_eq_iff.mp rfl)
    · cases h
  · intro h
    cases h with
    | @single _ bound hsquare hclosed hcomma hversion =>
      have hbound := Bound.ofSide_eq_iff.mpr hversion
      have hne : (Text.trim inner).isEmpty = false := by
        unfold Bound.ofSide at hbound
        cases hempty : (Text.trim inner).isEmpty with
        | false => rfl
        | true => simp [hempty] at hbound
      unfold ofInner
      rw [Text.splitWhere_of_not_mem hcomma]
      simp only [hne, hsquare, hclosed, hbound]
      rfl
    | sides hlowerComma hupperComma hlower hupper =>
      unfold ofInner
      rw [Text.splitWhere_append_cons (by decide), Text.splitWhere_of_not_mem hlowerComma,
        Text.splitWhere_of_not_mem hupperComma]
      show Except.ok _ = _
      rw [Bound.ofSide_eq_iff.mpr hlower, Bound.ofSide_eq_iff.mpr hupper]

/-- What is written for an interval: the text between an opening and a closing bracket, in which
no bracket closes before. -/
inductive IsWritten : List Char → Interval → Prop where
  | brackets {opening closing : Char} {inner : List Char} {i : Interval}
      (hopening : opening = '[' ∨ opening = '(') (hclosing : closing = ']' ∨ closing = ')')
      (hinner : ∀ c ∈ inner, c ≠ ']' ∧ c ≠ ')')
      (h : IsInner (opening == '[') (closing == ']') inner i) :
      IsWritten (opening :: inner ++ [closing]) i

end Interval

/-! ## Ranges -/

namespace VersionRange

/-- What is written for the intervals of a range: one interval after the other, with a comma between
them, and each with blanks around it or not. -/
inductive IsWritten : List Char → List Interval → Prop where
  | last {before interval after : List Char} {i : Interval}
      (hbefore : ∀ c ∈ before, Text.isBlank c = true)
      (hafter : ∀ c ∈ after, Text.isBlank c = true) (hi : Interval.IsWritten interval i) :
      IsWritten (before ++ interval ++ after) [i]
  | next {before interval after rest : List Char} {i : Interval} {others : List Interval}
      (hbefore : ∀ c ∈ before, Text.isBlank c = true)
      (hafter : ∀ c ∈ after, Text.isBlank c = true) (hi : Interval.IsWritten interval i)
      (hrest : IsWritten rest others) :
      IsWritten (before ++ interval ++ after ++ ',' :: rest) (i :: others)

theorem IsWritten.ne_nil {cs : List Char} {intervals : List Interval}
    (h : IsWritten cs intervals) : intervals ≠ [] := by
  cases h <;> exact List.cons_ne_nil _ _

/-! ## Reading the intervals -/

/-- Trimming the start of a text stops at the bracket of an interval. -/
theorem trimStart_append_interval {before interval : List Char} {i : Interval}
    (hbefore : ∀ c ∈ before, Text.isBlank c = true) (hi : Interval.IsWritten interval i)
    (after : List Char) :
    Text.trimStart (before ++ interval ++ after) = interval ++ after := by
  cases hi with
  | @brackets opening _ _ _ hopening =>
    have hb : ¬ Text.isBlank opening = true := by
      rcases hopening with rfl | rfl <;> decide
    rw [List.append_assoc, Text.trimStart, List.dropWhile_append_of_pos hbefore]
    simp [hb]

/-- The inner text of an interval ends at the first closing bracket. -/
theorem readIntervals_append {before interval : List Char} {i : Interval}
    (hbefore : ∀ c ∈ before, Text.isBlank c = true) (hi : Interval.IsWritten interval i)
    (after : List Char) :
    readIntervals (before ++ interval ++ after) =
      match Text.trimStart after with
      | [] => .ok [i]
      | separator :: rest =>
        if separator = ',' then do
          let others ← readIntervals rest
          .ok (i :: others)
        else .error .noComma := by
  have hstart := trimStart_append_interval hbefore hi after
  cases hi with
  | @brackets opening closing inner _ hopening hclosing hinner h =>
    have hcut : opening :: inner ++ [closing] ++ after = opening :: (inner ++ closing :: after) := by
      simp
    rw [hcut] at hstart
    have hopen : ∀ c ∈ inner, (!isClosing c) = true := by
      intro c hc
      obtain ⟨hsquare, hround⟩ := hinner c hc
      simp [isClosing, hsquare, hround]
    have hclose : isClosing closing = true := by
      rcases hclosing with rfl | rfl <;> decide
    have hdrop : (inner ++ closing :: after).dropWhile (fun c => !isClosing c) =
        closing :: after := by
      rw [List.dropWhile_append_of_pos hopen]
      simp [hclose]
    have htake : (inner ++ closing :: after).takeWhile (fun c => !isClosing c) = inner := by
      rw [List.takeWhile_append_of_pos hopen]
      simp [hclose]
    rw [readIntervals]
    split
    · next hnil =>
      rw [hstart] at hnil
      cases hnil
    · next first afterOpening hcons =>
      rw [hstart] at hcons
      obtain ⟨rfl, rfl⟩ := List.cons.inj hcons
      rw [if_neg (by rcases hopening with rfl | rfl <;> simp)]
      split
      · next hnil =>
        rw [hdrop] at hnil
        cases hnil
      · next last afterInterval hcons =>
        rw [hdrop] at hcons
        obtain ⟨rfl, rfl⟩ := List.cons.inj hcons
        dsimp only
        rw [htake, Interval.ofInner_eq_ok_iff.mpr h]
        dsimp only [bind, Except.bind]
        split
        · next hend => rw [hend]
        · next hnext => rw [hnext]

/-- What is read begins, behind blanks, with an interval as it is written. -/
theorem exists_of_readIntervals {cs : List Char} {intervals : List Interval}
    (h : readIntervals cs = .ok intervals) :
    ∃ before interval after i, (∀ c ∈ before, Text.isBlank c = true) ∧
      Interval.IsWritten interval i ∧ cs = before ++ interval ++ after := by
  rw [readIntervals] at h
  split at h
  · cases h
  · next opening afterOpening hstart =>
    split at h
    · cases h
    · next hopening =>
      split at h
      · cases h
      · next closing afterInterval hdrop =>
        dsimp only at h
        cases hi : Interval.ofInner (afterOpening.takeWhile fun c => !isClosing c)
            (opening == '[') (closing == ']') with
        | error fault =>
          rw [hi] at h
          cases h
        | ok i =>
          refine ⟨Text.leadingBlanks cs,
            opening :: (afterOpening.takeWhile fun c => !isClosing c) ++ [closing],
            afterInterval, i, fun _ hc => Text.isBlank_of_mem_leadingBlanks hc,
            .brackets ?_ ?_ ?_ (Interval.ofInner_eq_ok_iff.mp hi), ?_⟩
          · rw [not_and_or, not_not, not_not] at hopening
            exact hopening
          · have hhead := List.head?_dropWhile_not (fun c => !isClosing c) afterOpening
            rw [hdrop] at hhead
            simpa [isClosing, or_iff_not_imp_left] using hhead
          · intro c hc
            have hopen := List.mem_takeWhile_imp hc
            simpa [isClosing] using hopen
          · have hcs := List.takeWhile_append_dropWhile (p := Text.isBlank) (l := cs)
            have hafter := List.takeWhile_append_dropWhile (p := fun c => !isClosing c)
              (l := afterOpening)
            rw [hdrop] at hafter
            rw [← Text.trimStart, hstart, ← hafter] at hcs
            rw [Text.leadingBlanks]
            simpa using hcs.symm

/-- What is read is what is written. -/
theorem isWritten_of_readIntervals {cs : List Char} {intervals : List Interval}
    (h : readIntervals cs = .ok intervals) : IsWritten cs intervals := by
  -- on the length, since what is read next is the text behind the comma
  induction hn : cs.length using Nat.strong_induction_on generalizing cs intervals with
  | _ n ih =>
    obtain ⟨before, interval, after, i, hbefore, hi, rfl⟩ := exists_of_readIntervals h
    rw [readIntervals_append hbefore hi] at h
    have hafter := List.takeWhile_append_dropWhile (p := Text.isBlank) (l := after)
    rw [← Text.trimStart] at hafter
    split at h
    · next hend =>
      obtain rfl := Except.ok.inj h
      exact .last hbefore (List.dropWhile_eq_nil_iff.mp hend) hi
    · next separator rest hstart =>
      split at h
      · next hcomma =>
        subst hcomma
        cases hr : readIntervals rest with
        | error fault =>
          rw [hr] at h
          cases h
        | ok others =>
          rw [hr] at h
          obtain rfl := Except.ok.inj h
          rw [hstart] at hafter
          have hlt : rest.length < n := by
            rw [← hn, ← hafter]
            simp only [List.length_append, List.length_cons]
            omega
          have hrest : IsWritten rest others := ih _ hlt hr rfl
          rw [← hafter, ← List.append_assoc]
          exact .next hbefore (fun _ hc => List.mem_takeWhile_imp hc) hi hrest
      · cases h

/-- What is written is read. -/
theorem IsWritten.readIntervals_eq {cs : List Char} {intervals : List Interval}
    (h : IsWritten cs intervals) : readIntervals cs = .ok intervals := by
  induction h with
  | last hbefore hafter hi =>
    have hend : Text.trimStart _ = [] := List.dropWhile_eq_nil_iff.mpr hafter
    rw [readIntervals_append hbefore hi, hend]
  | @next before interval after rest i others hbefore hafter hi _ ih =>
    have hstart : Text.trimStart (after ++ ',' :: rest) = ',' :: rest := by
      rw [Text.trimStart, List.dropWhile_append_of_pos hafter]
      rfl
    rw [List.append_assoc (before ++ interval), readIntervals_append hbefore hi, hstart]
    dsimp only
    rw [if_pos rfl, ih]
    rfl

/-! ## Blanks around a range -/

theorem IsWritten.blanks_append {cs blanks : List Char} {intervals : List Interval}
    (h : IsWritten cs intervals) (hblanks : ∀ c ∈ blanks, Text.isBlank c = true) :
    IsWritten (blanks ++ cs) intervals := by
  have hboth {before : List Char} (hbefore : ∀ c ∈ before, Text.isBlank c = true) :
      ∀ c ∈ blanks ++ before, Text.isBlank c = true :=
    List.forall_mem_append.mpr ⟨hblanks, hbefore⟩
  cases h with
  | last hbefore hafter hi =>
    rw [← List.append_assoc, ← List.append_assoc]
    exact .last (hboth hbefore) hafter hi
  | next hbefore hafter hi hrest =>
    rw [← List.append_assoc, ← List.append_assoc, ← List.append_assoc]
    exact .next (hboth hbefore) hafter hi hrest

theorem IsWritten.append_blanks {cs blanks : List Char} {intervals : List Interval}
    (h : IsWritten cs intervals) (hblanks : ∀ c ∈ blanks, Text.isBlank c = true) :
    IsWritten (cs ++ blanks) intervals := by
  induction h with
  | last hbefore hafter hi =>
    rw [List.append_assoc]
    exact .last hbefore (List.forall_mem_append.mpr ⟨hafter, hblanks⟩) hi
  | next hbefore hafter hi _ ih =>
    rw [List.append_assoc, List.cons_append]
    exact .next hbefore hafter hi ih

theorem IsWritten.trimStart {cs : List Char} {intervals : List Interval}
    (h : IsWritten cs intervals) : IsWritten (Text.trimStart cs) intervals := by
  cases h with
  | @last before interval after _ hbefore hafter hi =>
    rw [trimStart_append_interval hbefore hi]
    show IsWritten ([] ++ interval ++ after) _
    exact .last nofun hafter hi
  | @next before interval after rest _ _ hbefore hafter hi hrest =>
    rw [List.append_assoc, trimStart_append_interval hbefore hi, ← List.append_assoc]
    show IsWritten ([] ++ interval ++ after ++ ',' :: rest) _
    exact .next nofun hafter hi hrest

theorem IsWritten.trimEnd {cs : List Char} {intervals : List Interval}
    (h : IsWritten cs intervals) : IsWritten (Text.trimEnd cs) intervals := by
  induction h with
  | @last before interval after i hbefore hafter hi =>
    have hend : Text.trimEnd (before ++ interval ++ after) = before ++ interval ++ [] := by
      rw [List.append_nil]
      apply Text.trimEnd_append hafter
      cases hi with
      | @brackets opening closing inner _ _ hclosing =>
        -- the closing bracket is not blank
        have hb : Text.isBlank closing = false := by
          rcases hclosing with rfl | rfl <;> decide
        rw [← List.append_assoc, Text.trimEnd_append_cons hb]
        rfl
    rw [hend]
    exact .last hbefore nofun hi
  | next hbefore hafter hi _ ih =>
    rw [Text.trimEnd_append_cons (by decide)]
    exact .next hbefore hafter hi ih

/-- Blanks around a range do not matter. -/
theorem isWritten_trim_iff {cs : List Char} {intervals : List Interval} :
    IsWritten (Text.trim cs) intervals ↔ IsWritten cs intervals := by
  constructor
  · intro h
    rw [← Text.around_trim cs, Text.around]
    apply IsWritten.append_blanks _ fun _ hc => Text.isBlank_of_mem_trailingBlanks hc
    exact h.blanks_append fun _ hc => Text.isBlank_of_mem_leadingBlanks hc
  · intro h
    exact h.trimStart.trimEnd

/-! ## Reading a range -/

theorem isWritten_of_read {text : String} {r : VersionRange} (h : read text = .ok r) :
    r.raw = text ∧ IsWritten text.toList r.intervals := by
  unfold read at h
  split at h
  · next intervals hr =>
    obtain rfl := Except.ok.inj h
    exact ⟨rfl, isWritten_trim_iff.mp (isWritten_of_readIntervals hr)⟩
  · cases h

/-- **A text is read as a range exactly when it is written as one**, and then as the intervals that
are written there. -/
theorem read_eq_ok_iff (text : String) (r : VersionRange) :
    read text = .ok r ↔ r.raw = text ∧ IsWritten text.toList r.intervals := by
  constructor
  · exact isWritten_of_read
  · rintro ⟨rfl, h⟩
    unfold read
    rw [(isWritten_trim_iff.mpr h).readIntervals_eq]

end VersionRange

end MavenUpgrade

import Mathlib
import MavenUpgrade.Version.Basic

/-!
# The order of versions, where it is one

The comparison of sequences of parts is reversed when they change sides (`compareParts_swap`), and
parts that both begin with do not matter (`compareParts_append`). It is transitive on some versions
exactly when around each of them that begins others the missing part agrees with what those go on
with (`Coherent`). Versions of the usual shape are so (`coherent_of_isPlain`), but not all of them
are: a nested list may be above the missing part in a place where a zero is below it.
-/

namespace MavenUpgrade

/-! ## Single parts -/

instance : Std.TransOrd Qualifier :=
  inferInstanceAs (Std.TransCmp (compareLex (compareOn Qualifier.rank) (compareOn Qualifier.key)))

instance : Std.LawfulEqOrd Qualifier where
  eq_of_compare {p q} h := by
    obtain ⟨hrank, hkey⟩ := Ordering.then_eq_eq.mp h
    have hrank' : p.rank = q.rank := Std.LawfulEqOrd.eq_of_compare hrank
    have hkey' : p.key = q.key := Std.LawfulEqOrd.eq_of_compare hkey
    cases p <;> cases q <;> simp_all [Qualifier.rank, Qualifier.key]

/-- A prerelease is below its release. -/
theorem Qualifier.compare_release_of_isPrerelease {q : Qualifier} (h : q.isPrerelease = true) :
    compare q .release = .lt := by
  have hrank : compare q.rank release.rank = .lt := Nat.compare_eq_lt.mpr (of_decide_eq_true h)
  show (compare q.rank release.rank).then _ = .lt
  rw [hrank]
  rfl

namespace Part

/-- The place of a kind of part among the others. -/
def kind : Part → Nat
  | qualifier _ => 0
  | nest => 1
  | number _ => 2

/-- The value of a number; another part has none. -/
def value : Part → Nat
  | number n => n
  | _ => 0

/-- The qualifier that a part is; another part counts as a plain release. -/
def word : Part → Qualifier
  | qualifier q => q
  | _ => .release

/-- The order of two parts in one place. -/
def comparePart : Part → Part → Ordering :=
  compareLex (compareOn kind) (compareLex (compareOn value) (compareOn word))

instance : Std.TransCmp comparePart :=
  inferInstanceAs (Std.TransCmp (compareLex (compareOn kind)
    (compareLex (compareOn value) (compareOn word))))

instance : Std.LawfulEqCmp comparePart where
  eq_of_compare {p q} h := by
    obtain ⟨hkind, h⟩ := Ordering.then_eq_eq.mp h
    obtain ⟨hvalue, hword⟩ := Ordering.then_eq_eq.mp h
    have hkind' : p.kind = q.kind := Std.LawfulEqOrd.eq_of_compare hkind
    have hvalue' : p.value = q.value := Std.LawfulEqOrd.eq_of_compare hvalue
    have hword' : p.word = q.word := Std.LawfulEqOrd.eq_of_compare hword
    cases p <;> cases q <;> simp_all [kind, value, word]

/-! ## Sequences of parts -/

/-- Of two sequences that go on, the first parts decide, or else what follows them. -/
theorem compareParts_cons (p q : Part) (ps qs : List Part) :
    compareParts (p :: ps) (q :: qs) = (comparePart p q).then (compareParts ps qs) := by
  cases p with
  | number m =>
    cases q with
    | number n => simp [compareParts, comparePart, compareLex, compareOn, kind, value, word]
    | _ => rfl
  | qualifier w =>
    cases q with
    | qualifier w' => simp [compareParts, comparePart, compareLex, compareOn, kind, value, word]
    | _ => rfl
  | nest =>
    cases q with
    | nest => simp [compareParts, comparePart, compareLex, compareOn, kind, value, word]
    | _ => rfl

theorem compareParts_nil_left (qs : List Part) :
    compareParts [] qs = (compareWithNone qs).swap := by
  rw [compareParts]

theorem compareParts_nil_right (ps : List Part) : compareParts ps [] = compareWithNone ps := by
  cases ps <;> rfl

/-- What two sequences both begin with does not matter. -/
theorem compareParts_append (xs ps qs : List Part) :
    compareParts (xs ++ ps) (xs ++ qs) = compareParts ps qs := by
  induction xs with
  | nil => rfl
  | cons x xs ih =>
    have hx : comparePart x x = .eq := Std.ReflCmp.compare_self
    rw [List.cons_append, List.cons_append, compareParts_cons, hx, ih]
    rfl

/-- A sequence is as high as itself. -/
theorem compareParts_self (ps : List Part) : compareParts ps ps = .eq := by
  have h := compareParts_append ps [] []
  rw [List.append_nil] at h
  exact h

/-- The comparison is reversed when the sequences change sides. -/
theorem compareParts_swap (ps qs : List Part) :
    compareParts qs ps = (compareParts ps qs).swap := by
  induction ps generalizing qs with
  | nil => rw [compareParts_nil_left, compareParts_nil_right, Ordering.swap_swap]
  | cons p ps ih =>
    cases qs with
    | nil => rw [compareParts_nil_left, compareParts_nil_right]
    | cons q qs =>
      rw [compareParts_cons, compareParts_cons, Ordering.swap_then, ← ih,
        ← Std.OrientedCmp.eq_swap]

/-- A sequence that weighs as much as a missing part has a first part that does, if it begins with
nested lists. -/
theorem compareHeadWithNone_of_eq {ps : List Part} (h : compareWithNone ps = .eq) :
    compareHeadWithNone ps = .eq := by
  cases ps with
  | nil => rfl
  | cons p ps =>
    cases p with
    | number n => exact (Ordering.then_eq_eq.mp h).1
    | qualifier q => exact (Ordering.then_eq_eq.mp h).1
    | nest => exact h

/-- Sequences that are equally high weigh as much in the place of a missing part. -/
theorem compareWithNone_of_eq {ps qs : List Part} (h : compareParts ps qs = .eq) :
    compareWithNone ps = compareWithNone qs ∧
      compareHeadWithNone ps = compareHeadWithNone qs := by
  induction ps generalizing qs with
  | nil =>
    rw [compareParts_nil_left, Ordering.swap_eq_eq] at h
    exact ⟨h.symm, (compareHeadWithNone_of_eq h).symm⟩
  | cons p ps ih =>
    cases qs with
    | nil => exact ⟨h, compareHeadWithNone_of_eq h⟩
    | cons q qs =>
      rw [compareParts_cons] at h
      obtain ⟨hpart, hrest⟩ := Ordering.then_eq_eq.mp h
      obtain rfl : p = q := Std.LawfulEqCmp.eq_of_compare hpart
      obtain ⟨hnone, hhead⟩ := ih hrest
      cases p with
      | number n =>
        refine ⟨?_, rfl⟩
        rw [compareWithNone, compareWithNone, hnone]
      | qualifier q =>
        refine ⟨?_, rfl⟩
        rw [compareWithNone, compareWithNone, hnone]
      | nest => exact ⟨hhead, hhead⟩

/-! ## Transitivity -/

/-- Some sequences are coherent if each of them that begins two others stands between what these go
on with, wherever the one goes on below a missing part and the other one above it. -/
def Coherent (S : List (List Part)) : Prop :=
  ∀ xs ∈ S, ∀ ps qs, xs ++ ps ∈ S → xs ++ qs ∈ S →
    compareWithNone ps ≠ .gt → compareWithNone qs ≠ .lt → compareParts ps qs ≠ .gt

theorem Coherent.mono {S T : List (List Part)} (h : Coherent S) (hsub : T ⊆ S) : Coherent T :=
  fun xs hxs ps qs hp hq => h xs (hsub hxs) ps qs (hsub hp) (hsub hq)

/-- What coherent sequences go on with is coherent. -/
theorem Coherent.tail {S : List (List Part)} {p : Part} (h : Coherent (S.map (p :: ·))) :
    Coherent S := by
  intro xs hxs ps qs hp hq
  exact h (p :: xs) (List.mem_map_of_mem hxs) ps qs (List.mem_map_of_mem hp)
    (List.mem_map_of_mem hq)

/-- Sequences in which each is at most as high as the other are equally high. -/
theorem compareParts_antisymm {ps qs : List Part} (h : compareParts ps qs ≠ .gt)
    (h' : compareParts qs ps ≠ .gt) : compareParts ps qs = .eq := by
  rw [compareParts_swap ps qs] at h'
  cases hc : compareParts ps qs with
  | lt => exact absurd (by rw [hc]; rfl) h'
  | eq => rfl
  | gt => exact absurd hc h

theorem then_ne_gt_iff {a b : Ordering} : a.then b ≠ .gt ↔ a = .lt ∨ a = .eq ∧ b ≠ .gt := by
  cases a <;> simp [Ordering.then]

/-- **The order is transitive on coherent sequences.** -/
theorem compareParts_trans {ps qs rs : List Part} (h : Coherent [ps, qs, rs])
    (h₁ : compareParts ps qs ≠ .gt) (h₂ : compareParts qs rs ≠ .gt) :
    compareParts ps rs ≠ .gt := by
  induction ps generalizing qs rs with
  | nil =>
    -- the first sequence is where the two others begin
    rw [compareParts_nil_left] at h₁ ⊢
    intro hlow
    have hr : compareWithNone rs = .lt := Ordering.swap_eq_gt.mp hlow
    have hle : compareParts rs qs ≠ .gt :=
      h [] (by simp) rs qs (by simp) (by simp) (by simp [hr])
        fun hq => h₁ (Ordering.swap_eq_gt.mpr hq)
    have heq := (compareWithNone_of_eq (compareParts_antisymm h₂ hle)).1
    exact h₁ (Ordering.swap_eq_gt.mpr (heq.trans hr))
  | cons p ps ih =>
    cases qs with
    | nil =>
      rw [compareParts_nil_right] at h₁
      rw [compareParts_nil_left] at h₂
      exact h [] (by simp) _ rs (by simp) (by simp) h₁
        fun hr => h₂ (Ordering.swap_eq_gt.mpr hr)
    | cons q qs =>
      cases rs with
      | nil =>
        rw [compareParts_nil_right] at h₂ ⊢
        intro hp
        have hle : compareParts (q :: qs) (p :: ps) ≠ .gt :=
          h [] (by simp) _ _ (by simp) (by simp) h₂ (by simp [hp])
        have heq := (compareWithNone_of_eq (compareParts_antisymm h₁ hle)).1
        exact h₂ (heq.symm.trans hp)
      | cons r rs =>
        rw [compareParts_cons, then_ne_gt_iff] at h₁ h₂ ⊢
        rcases h₁ with hpq | ⟨hpq, h₁⟩
        · rcases h₂ with hqr | ⟨hqr, -⟩
          · exact Or.inl (Std.TransCmp.lt_trans hpq hqr)
          · obtain rfl : q = r := Std.LawfulEqCmp.eq_of_compare hqr
            exact Or.inl hpq
        · obtain rfl : p = q := Std.LawfulEqCmp.eq_of_compare hpq
          rcases h₂ with hqr | ⟨hqr, h₂⟩
          · exact Or.inl hqr
          · -- all three begin alike
            obtain rfl : p = r := Std.LawfulEqCmp.eq_of_compare hqr
            have htail : Coherent [ps, qs, rs] := Coherent.tail h
            exact Or.inr ⟨hpq, ih htail h₁ h₂⟩

/-- **The order is transitive on some sequences exactly when they are coherent.** -/
theorem compareParts_trans_iff (S : List (List Part)) :
    (∀ ps ∈ S, ∀ qs ∈ S, ∀ rs ∈ S, compareParts ps qs ≠ .gt → compareParts qs rs ≠ .gt →
      compareParts ps rs ≠ .gt) ↔ Coherent S := by
  constructor
  · intro htrans xs hxs ps qs hp hq hlow hhigh
    -- the sequence that begins the two others stands between them
    have h := htrans _ hp xs hxs _ hq
    rw [compareParts_append] at h
    apply h
    · have hxp := compareParts_append xs ps []
      rw [List.append_nil, compareParts_nil_right] at hxp
      rw [hxp]
      exact hlow
    · have hxq := compareParts_append xs [] qs
      rw [List.append_nil, compareParts_nil_left] at hxq
      rw [hxq]
      intro hgt
      exact hhigh (Ordering.swap_eq_gt.mp hgt)
  · intro h ps hps qs hqs rs hrs
    apply compareParts_trans
    apply h.mono
    intro xs hxs
    simp only [List.mem_cons, List.not_mem_nil, or_false] at hxs
    rcases hxs with rfl | rfl | rfl <;> assumption

/-! ## Versions of the usual shape -/

/-- Whether a sequence begins with a number. -/
def beginsWithNumber : List Part → Bool
  | number _ :: _ => true
  | _ => false

/-- Whether parts are of the usual shape, `nested` telling whether they open a nested list: a zero
only stands in front of a number and opens no nested list, a qualifier that is not one of a
prerelease stands at the beginning of a nested list and is not a plain release, and a nested list
does not begin with another one. -/
def isPlain (nested : Bool) : List Part → Bool
  | [] => !nested
  | number n :: ps => (n != 0 || !nested && beginsWithNumber ps) && isPlain false ps
  | qualifier q :: ps => (q.isPrerelease || nested && q != .release) && isPlain false ps
  | nest :: ps => !nested && isPlain true ps

/-- What a plain sequence goes on with behind another one is plain. -/
theorem isPlain_of_append {nested : Bool} {xs ps : List Part} (hx : isPlain nested xs = true)
    (h : isPlain nested (xs ++ ps) = true) : isPlain false ps = true := by
  induction xs generalizing nested with
  | nil =>
    cases nested with
    | false => exact h
    | true => cases hx
  | cons x xs ih =>
    cases x with
    | number n => exact ih (Bool.and_eq_true_iff.mp hx).2 (Bool.and_eq_true_iff.mp h).2
    | qualifier q => exact ih (Bool.and_eq_true_iff.mp hx).2 (Bool.and_eq_true_iff.mp h).2
    | nest => exact ih (Bool.and_eq_true_iff.mp hx).2 (Bool.and_eq_true_iff.mp h).2

/-- Plain parts that begin with a number are above a missing part. -/
theorem compareWithNone_number {n : Nat} {ps : List Part}
    (h : isPlain false (number n :: ps) = true) : compareWithNone (number n :: ps) = .gt := by
  induction ps generalizing n with
  | nil =>
    obtain ⟨hn, -⟩ := Bool.and_eq_true_iff.mp h
    have hne : n ≠ 0 := by simpa [beginsWithNumber] using hn
    rw [compareWithNone, Nat.compare_eq_gt.mpr (Nat.pos_of_ne_zero hne)]
    rfl
  | cons p ps ih =>
    obtain ⟨hn, hps⟩ := Bool.and_eq_true_iff.mp h
    rw [compareWithNone]
    by_cases hzero : n = 0
    · -- a zero leaves the decision to the number behind it
      subst hzero
      cases p with
      | number m => exact ih hps
      | qualifier q => simp [beginsWithNumber] at hn
      | nest => simp [beginsWithNumber] at hn
    · rw [Nat.compare_eq_gt.mpr (Nat.pos_of_ne_zero hzero)]
      rfl

/-- Plain parts that begin with a qualifier are below a missing part. -/
theorem compareWithNone_qualifier {q : Qualifier} {ps : List Part}
    (h : isPlain false (qualifier q :: ps) = true) :
    compareWithNone (qualifier q :: ps) = .lt := by
  obtain ⟨hq, -⟩ := Bool.and_eq_true_iff.mp h
  have hpre : q.isPrerelease = true := by simpa using hq
  rw [compareWithNone, Qualifier.compare_release_of_isPrerelease hpre]
  rfl

/-- A plain nested list begins with a number other than zero or with a qualifier other than a
release. -/
theorem exists_of_isPlain_nested {ps : List Part} (h : isPlain true ps = true) :
    (∃ n rest, ps = number n :: rest ∧ n ≠ 0) ∨
      ∃ q rest, ps = qualifier q :: rest ∧ q ≠ .release := by
  cases ps with
  | nil => cases h
  | cons p ps =>
    cases p with
    | number n =>
      obtain ⟨hn, -⟩ := Bool.and_eq_true_iff.mp h
      exact Or.inl ⟨n, ps, rfl, by simpa using hn⟩
    | qualifier q =>
      refine Or.inr ⟨q, ps, rfl, ?_⟩
      rintro rfl
      cases h
    | nest => cases h

/-- Of two plain nested lists, one below a missing part and one above it, the first is lower. -/
theorem compareParts_nested {ps qs : List Part} (hps : isPlain true ps = true)
    (hqs : isPlain true qs = true) (hlow : compareHeadWithNone ps ≠ .gt)
    (hhigh : compareHeadWithNone qs ≠ .lt) : compareParts ps qs ≠ .gt := by
  rcases exists_of_isPlain_nested hps with ⟨m, ps, rfl, hm⟩ | ⟨p, ps, rfl, hp⟩
  · exact absurd (Nat.compare_eq_gt.mpr (Nat.pos_of_ne_zero hm)) hlow
  · rcases exists_of_isPlain_nested hqs with ⟨n, qs, rfl, -⟩ | ⟨q, qs, rfl, hq⟩
    · exact nofun
    · -- a prerelease on one side, what comes after a release on the other
      have hbelow : compare p Qualifier.release = .lt := by
        cases hc : compare p Qualifier.release with
        | lt => rfl
        | eq => exact absurd (Std.LawfulEqOrd.eq_of_compare hc) hp
        | gt => exact absurd hc hlow
      have habove : compare Qualifier.release q = .lt := by
        rw [Std.OrientedOrd.eq_swap, Ordering.swap_eq_lt]
        cases hc : compare q Qualifier.release with
        | lt => exact absurd hc hhigh
        | eq => exact absurd (Std.LawfulEqOrd.eq_of_compare hc) hq
        | gt => rfl
      have hlt : compare p q = .lt := Std.TransCmp.lt_trans hbelow habove
      rw [compareParts, hlt]
      exact nofun

/-- **Plain sequences are coherent.** -/
theorem coherent_of_isPlain {S : List (List Part)} (h : ∀ ps ∈ S, isPlain false ps = true) :
    Coherent S := by
  intro xs hxs ps qs hp hq hlow hhigh
  have hps : isPlain false ps = true := isPlain_of_append (h xs hxs) (h _ hp)
  have hqs : isPlain false qs = true := isPlain_of_append (h xs hxs) (h _ hq)
  cases ps with
  | nil =>
    rw [compareParts_nil_left]
    intro hgt
    exact hhigh (Ordering.swap_eq_gt.mp hgt)
  | cons p ps =>
    cases qs with
    | nil =>
      rw [compareParts_nil_right]
      exact hlow
    | cons q qs =>
      cases p with
      | number m => exact absurd (compareWithNone_number hps) hlow
      | qualifier p =>
        cases q with
        | number n => exact nofun
        | qualifier q => exact absurd (compareWithNone_qualifier hqs) hhigh
        | nest => exact nofun
      | nest =>
        cases q with
        | number n => exact nofun
        | qualifier q => exact absurd (compareWithNone_qualifier hqs) hhigh
        | nest =>
          have hps' : isPlain true ps = true := (Bool.and_eq_true_iff.mp hps).2
          have hqs' : isPlain true qs = true := (Bool.and_eq_true_iff.mp hqs).2
          show compareParts ps qs ≠ .gt
          exact compareParts_nested hps' hqs' hlow hhigh

end Part

/-! ## Versions -/

namespace Version

/-- The order is transitive on some version texts. -/
def IsOrdered (vs : List String) : Prop :=
  ∀ a ∈ vs, ∀ b ∈ vs, ∀ c ∈ vs,
    compareText a b ≠ .gt → compareText b c ≠ .gt → compareText a c ≠ .gt

/-- Whether a version text is of the usual shape. -/
def isPlain (text : String) : Bool :=
  Part.isPlain false (ofText text).parts

/-- **The order is transitive on version texts exactly as far as they are coherent**, and so on all
version texts of the usual shape. -/
theorem isOrdered_iff_coherent (vs : List String) :
    (IsOrdered vs ↔ Part.Coherent (vs.map fun v => (ofText v).parts)) ∧
      ((∀ v ∈ vs, isPlain v = true) → IsOrdered vs) := by
  have hiff : IsOrdered vs ↔ Part.Coherent (vs.map fun v => (ofText v).parts) := by
    rw [← Part.compareParts_trans_iff]
    simp only [List.forall_mem_map]
    rfl
  refine ⟨hiff, fun h => hiff.mpr (Part.coherent_of_isPlain ?_)⟩
  rw [List.forall_mem_map]
  exact h

theorem isOrdered_usual : IsOrdered
    ["2.0.0-beta1", "31.1-jre", "1.0a1", "1.0-SNAPSHOT", "1.0-rc-2", "1.2.10", "1.0.Final"] :=
  (isOrdered_iff_coherent _).2 (by decide +kernel)

/-- A nested list is above a missing part, which is above the zero with a prerelease behind it; this
zero is above the nested list. -/
theorem not_isOrdered_around_release : ¬ IsOrdered ["1", "1-1", "1.0.beta"] := by
  intro h
  exact h "1" (by decide) "1-1" (by decide) "1.0.beta" (by decide) (by decide +kernel)
    (by decide +kernel) (by decide +kernel)

end Version

end MavenUpgrade

import Mathlib
import MavenUpgrade.Proofs.Suggest.Member
import MavenUpgrade.Proofs.Template.Preference

/-!
# Voting on a value

The members of a property choose the proposal that suits the most of them, and of several such ones
the first (`Voter.chooseValue?_eq_some_iff`). Where the templates hold no other placeholder, and
never twice in a row, no value that nobody proposes suits more of them
(`Voter.IsMajority.support_le`).
-/

namespace MavenUpgrade

/-! ## The first of the best -/

/-- An element of a list with the highest score, and the first of those. -/
def IsFirstBest {α : Type} (score : α → Nat) (xs : List α) (best : α) : Prop :=
  ∃ before after, xs = before ++ best :: after ∧
    (∀ x ∈ before, score x < score best) ∧ ∀ x ∈ after, score x ≤ score best

namespace IsFirstBest

variable {α : Type} {score : α → Nat} {xs : List α} {best : α}

/-- No element has a higher score. -/
theorem score_le (h : IsFirstBest score xs best) : ∀ x ∈ xs, score x ≤ score best := by
  obtain ⟨before, after, rfl, hbefore, hafter⟩ := h
  intro x hx
  rcases List.mem_append.mp hx with hx | hx
  · exact Nat.le_of_lt (hbefore x hx)
  · rcases List.mem_cons.mp hx with rfl | hx
    · exact Nat.le_refl _
    · exact hafter x hx

/-- An element with a higher score than all others is the best one, also at the end. -/
theorem concat_of_lt (h : IsFirstBest score xs best) {x : α} (hx : score best < score x) :
    IsFirstBest score (xs ++ [x]) x := by
  refine ⟨xs, [], rfl, fun y hy => ?_, fun y hy => ?_⟩
  · have hle := h.score_le y hy
    omega
  · cases hy

/-- The best element remains so before an element with no higher score. -/
theorem concat_of_le (h : IsFirstBest score xs best) {x : α} (hx : score x ≤ score best) :
    IsFirstBest score (xs ++ [x]) best := by
  obtain ⟨before, after, rfl, hbefore, hafter⟩ := h
  refine ⟨before, after ++ [x], by rw [List.append_assoc, List.cons_append], hbefore, ?_⟩
  intro y hy
  rcases List.mem_append.mp hy with hy | hy
  · exact hafter y hy
  · rw [List.mem_singleton.mp hy]
    exact hx

/-- There is only one first best element. -/
theorem unique {other : α} (h : IsFirstBest score xs best) (h' : IsFirstBest score xs other) :
    best = other := by
  obtain ⟨before, after, hxs, hbefore, hafter⟩ := id h
  obtain ⟨before', after', hxs', hbefore', hafter'⟩ := id h'
  -- neither of the two stands before the other one
  have hmem : best ∈ xs := hxs ▸ List.mem_append_right _ List.mem_cons_self
  have hmem' : other ∈ xs := hxs' ▸ List.mem_append_right _ List.mem_cons_self
  have hle := h.score_le other hmem'
  have hle' := h'.score_le best hmem
  rcases List.append_eq_append_iff.mp (hxs.symm.trans hxs') with
    ⟨between, hb, ha⟩ | ⟨between, hb, ha⟩
  · cases between with
    | nil => exact (List.cons.inj ha).1
    | cons x between =>
      obtain rfl := (List.cons.inj ha).1
      have hlt := hbefore' best (hb ▸ List.mem_append_right _ List.mem_cons_self)
      omega
  · cases between with
    | nil => exact (List.cons.inj ha).1.symm
    | cons x between =>
      obtain rfl := (List.cons.inj ha).1
      have hlt := hbefore other (hb ▸ List.mem_append_right _ List.mem_cons_self)
      omega

end IsFirstBest

/-! ## Choosing a value -/

namespace Voter

variable {voters : List Voter} {name : String}

/-- What remains of two values: the first one, unless the second one has more support. -/
def better (voters : List Voter) (name best value : String) : String :=
  if support voters name best < support voters name value then value else best

/-- A value with no more support than the best one changes nothing. -/
theorem better_of_le {best value : String}
    (h : support voters name value ≤ support voters name best) :
    better voters name best value = best :=
  if_neg (Nat.not_lt.mpr h)

theorem support_le_better_left (voters : List Voter) (name best value : String) :
    support voters name best ≤ support voters name (better voters name best value) := by
  unfold better
  split
  · omega
  · omega

theorem support_le_better_right (voters : List Voter) (name best value : String) :
    support voters name value ≤ support voters name (better voters name best value) := by
  unfold better
  split
  · omega
  · omega

/-- Going through all values leaves the first of those with the most support. -/
theorem isFirstBest_foldl_better (voters : List Voter) (name value : String)
    (values : List String) :
    IsFirstBest (support voters name) (value :: values)
      (values.foldl (better voters name) value) := by
  induction values using List.reverseRecOn with
  | nil =>
    refine ⟨[], [], rfl, fun x hx => ?_, fun x hx => ?_⟩
    · cases hx
    · cases hx
  | append_singleton values last ih =>
    rw [List.foldl_append, List.foldl_cons, List.foldl_nil, ← List.cons_append]
    by_cases hlt : support voters name (values.foldl (better voters name) value) <
        support voters name last
    · rw [better, if_pos hlt]
      exact ih.concat_of_lt hlt
    · rw [better, if_neg hlt]
      exact ih.concat_of_le (Nat.not_lt.mp hlt)

/-- The most supported value is the first of those with the most support. -/
theorem mostSupported?_eq_some_iff {values : List String} {value : String} :
    mostSupported? voters name values = some value ↔
      IsFirstBest (support voters name) values value := by
  cases values with
  | nil =>
    refine iff_of_false (by rintro ⟨⟩) ?_
    rintro ⟨before, after, h, -⟩
    exact List.append_ne_nil_of_right_ne_nil before (List.cons_ne_nil value after) h.symm
  | cons first values =>
    have hbest := isFirstBest_foldl_better voters name first values
    show some (values.foldl (better voters name) first) = some value ↔ _
    rw [Option.some_inj]
    constructor
    · rintro rfl
      exact hbest
    · exact fun h => hbest.unique h

/-- A value that has no more support than the best one so far may be left out. -/
theorem foldl_better_filter {best value : String}
    (h : support voters name value ≤ support voters name best) (values : List String) :
    (values.filter (· ≠ value)).foldl (better voters name) best =
      values.foldl (better voters name) best := by
  induction values generalizing best with
  | nil => rfl
  | cons v values ih =>
    by_cases hv : v = value
    · rw [List.filter_cons_of_neg (by simp [hv]), List.foldl_cons, hv, better_of_le h]
      exact ih h
    · rw [List.filter_cons_of_pos (by simp [hv]), List.foldl_cons, List.foldl_cons]
      exact ih (h.trans (support_le_better_left voters name best v))

/-- Values that occurred before may be left out. -/
theorem foldl_better_distinct (best : String) (values : List String) :
    (distinct values).foldl (better voters name) best =
      values.foldl (better voters name) best := by
  induction values generalizing best with
  | nil => rfl
  | cons v values ih =>
    show ((distinct values).filter (· ≠ v)).foldl (better voters name)
      (better voters name best v) = _
    rw [foldl_better_filter (support_le_better_right voters name best v), ih]
    rfl

/-- It does not matter how often a value is proposed. -/
theorem mostSupported?_distinct (values : List String) :
    mostSupported? voters name (distinct values) = mostSupported? voters name values := by
  cases values with
  | nil => rfl
  | cons v values =>
    show some (((distinct values).filter (· ≠ v)).foldl (better voters name) v) =
      some (values.foldl (better voters name) v)
    rw [foldl_better_filter (Nat.le_refl _), foldl_better_distinct]

/-- A value that some member proposes and that suits the most members of all proposals. Of several
such values it is the one that is proposed first. -/
def IsMajority (voters : List Voter) (name value : String) : Prop :=
  ∃ before v after, voters = before ++ v :: after ∧ v.proposal? name = some value ∧
    (∀ w ∈ before, ∀ other, w.proposal? name = some other →
      support voters name other < support voters name value) ∧
    ∀ w ∈ after, ∀ other, w.proposal? name = some other →
      support voters name other ≤ support voters name value

/-- **The members choose the first of the proposals that suit the most of them.** -/
theorem chooseValue?_eq_some_iff {value : String} :
    chooseValue? voters name = some value ↔ IsMajority voters name value := by
  rw [chooseValue?, proposals, mostSupported?_distinct, mostSupported?_eq_some_iff]
  constructor
  · rintro ⟨before, after, hsplit, hbefore, hafter⟩
    obtain ⟨front, back, rfl, hfront, hback⟩ := List.filterMap_eq_append_iff.mp hsplit
    obtain ⟨silent, v, rest, rfl, hsilent, hv, hrest⟩ := List.filterMap_eq_cons_iff.mp hback
    refine ⟨front ++ silent, v, rest, by rw [List.append_assoc], hv, ?_, ?_⟩
    · intro w hw other hother
      rcases List.mem_append.mp hw with hw | hw
      · exact hbefore other (hfront ▸ List.mem_filterMap.mpr ⟨w, hw, hother⟩)
      · rw [hsilent w hw] at hother
        cases hother
    · intro w hw other hother
      exact hafter other (hrest ▸ List.mem_filterMap.mpr ⟨w, hw, hother⟩)
  · rintro ⟨before, v, after, rfl, hv, hbefore, hafter⟩
    refine ⟨before.filterMap (·.proposal? name), after.filterMap (·.proposal? name), ?_, ?_, ?_⟩
    · rw [List.filterMap_append]
      exact congrArg (_ ++ ·) (List.filterMap_cons_some hv)
    · intro other hother
      obtain ⟨w, hw, hp⟩ := List.mem_filterMap.mp hother
      exact hbefore w hw other hp
    · intro other hother
      obtain ⟨w, hw, hp⟩ := List.mem_filterMap.mp hother
      exact hafter w hw other hp

/-- A value that is chosen is proposed by a member. -/
theorem exists_of_chooseValue? {value : String} (h : chooseValue? voters name = some value) :
    ∃ v ∈ voters, v.proposal? name = some value := by
  obtain ⟨before, v, after, rfl, hv, -⟩ := chooseValue?_eq_some_iff.mp h
  exact ⟨v, List.mem_append_right _ List.mem_cons_self, hv⟩

/-- A proposal suits no more members than the value that is chosen. -/
theorem IsMajority.support_le_of_proposal {value other : String} (h : IsMajority voters name value)
    {w : Voter} (hw : w ∈ voters) (hother : w.proposal? name = some other) :
    support voters name other ≤ support voters name value := by
  obtain ⟨before, v, after, hsplit, hv, hbefore, hafter⟩ := h
  rw [hsplit] at hw
  rcases List.mem_append.mp hw with hw | hw
  · exact Nat.le_of_lt (hbefore w hw other hother)
  · rcases List.mem_cons.mp hw with rfl | hw
    · rw [Option.some.inj (hother.symm.trans hv)]
    · exact hafter w hw other hother

/-- A member proposes a value exactly when its template matches and holds the placeholder. -/
theorem proposal?_eq_none_iff {v : Voter} :
    v.proposal? name = none ↔
      (name ∈ v.template.placeholders → v.template.matches? v.desired = none) := by
  rw [proposal?, Option.bind_eq_none_iff]
  constructor
  · intro h hn
    rw [Option.eq_none_iff_forall_ne_some]
    intro found hfound
    obtain ⟨value, hvalue, -⟩ := (Template.isAnswer_of_matches? hfound).2.bound name hn
    rw [h found hfound] at hvalue
    cases hvalue
  · intro h found hfound
    rw [List.lookup_eq_none_iff]
    intro e he
    by_contra hname
    rw [bne_iff_ne, Ne, not_not] at hname
    -- a name that is bound is one of the template's
    have hn : name ∈ v.template.placeholders := by
      rw [← (Template.isAnswer_of_matches? hfound).1, List.mem_map]
      exact ⟨e, he, hname.symm⟩
    rw [h hn] at hfound
    cases hfound

/-- **The members choose nothing exactly when none of them has a match for the property.** -/
theorem chooseValue?_eq_none_iff :
    chooseValue? voters name = none ↔
      ∀ v ∈ voters, name ∈ v.template.placeholders → v.template.matches? v.desired = none := by
  have hempty : chooseValue? voters name = none ↔ voters.filterMap (·.proposal? name) = [] := by
    rw [chooseValue?, proposals, mostSupported?_distinct]
    cases voters.filterMap (·.proposal? name) with
    | nil => exact iff_of_true rfl rfl
    | cons value values => exact iff_of_false (by rintro ⟨⟩) (List.cons_ne_nil value values)
  rw [hempty, List.filterMap_eq_nil_iff]
  exact forall₂_congr fun v _ => proposal?_eq_none_iff

/-! ## Values that suit a member -/

/-- A value that suits a member fills the pieces of its template up to its text. -/
theorem filling_of_isSuitedBy {v : Voter} {value : String} (h : v.isSuitedBy name value = true) :
    ∃ value?, value? name = some value ∧
      Template.filling value? v.template.segments = v.desired.toList := by
  obtain ⟨found, hfound⟩ := Option.isSome_iff_exists.mp h
  obtain ⟨-, hfill⟩ := Template.matches?_sound hfound
  rw [Template.filling_substitute] at hfill
  exact ⟨_, if_pos rfl, hfill⟩

/-- A member whose template holds no other placeholder proposes the one value that suits it, if this
is not empty. -/
theorem proposal?_of_isSuitedBy {v : Voter} {value : String}
    (hadjacent : v.template.hasAdjacent = false) (hn : name ∈ v.template.placeholders)
    (honly : ∀ n ∈ v.template.placeholders, n = name) (hne : value ≠ "")
    (h : v.isSuitedBy name value = true) : v.proposal? name = some value := by
  have honly' : ∀ n, .placeholder n ∈ v.template.segments → n = name :=
    fun n hs => honly n (Template.mem_placeholders_iff.mpr hs)
  obtain ⟨value?, hv, hfill⟩ := filling_of_isSuitedBy h
  rw [Template.filling_of_only honly' hv] at hfill
  -- the value is an answer by itself
  have hlookup : List.lookup name [(name, value)] = some value := by
    rw [OrderedMap.lookup_cons_entry, if_pos rfl]
  have hanswer : v.template.IsAnswer v.desired [(name, value)] := by
    refine ⟨fun n hmem => ⟨value, ?_, hne⟩, ?_⟩
    · rw [honly n hmem]
      exact hlookup
    · rw [Template.render_eq_iff, Template.filling_of_only honly' hlookup]
      exact hfill
  obtain ⟨matched, hmatched⟩ := Option.isSome_iff_exists.mp h
  obtain ⟨found, hfound, -⟩ := Template.exists_matches?_of_isAnswer hadjacent
    (Template.utf8ByteSize_le_of_matches? hmatched) hanswer
  -- and the only one
  obtain ⟨-, hbound⟩ := Template.isAnswer_of_matches? hfound
  obtain ⟨other, hother, -⟩ := hbound.bound name hn
  have hfill' := (v.template.render_eq_iff found v.desired).mp hbound.renders
  rw [Template.filling_of_only honly' hother] at hfill'
  have heq : other = value :=
    Template.eq_of_filling_eq (Template.mem_placeholders_iff.mp hn) (hfill'.trans hfill.symm)
  rw [proposal?, hfound, Option.bind_some, hother, heq]

/-- **Where the templates hold no other placeholder and never twice in a row, no value but the empty
one suits more members than the one that is chosen.** -/
theorem IsMajority.support_le {value other : String} (h : IsMajority voters name value)
    (honly : ∀ v ∈ voters, v.template.hasAdjacent = false ∧
      ∀ n ∈ v.template.placeholders, n = name) (hne : other ≠ "") :
    support voters name other ≤ support voters name value := by
  by_cases hproposed : ∃ w ∈ voters, w.proposal? name = some other
  · obtain ⟨w, hw, hp⟩ := hproposed
    exact h.support_le_of_proposal hw hp
  · -- the other value suits only members without the placeholder, and those any value suits
    refine List.countP_mono_left fun v hv hsuits => ?_
    obtain ⟨hadjacent, hnames⟩ := honly v hv
    by_cases hn : name ∈ v.template.placeholders
    · exact absurd ⟨v, hv, proposal?_of_isSuitedBy hadjacent hn hnames hne hsuits⟩ hproposed
    · rw [isSuitedBy, Template.substitute_of_not_mem hn] at hsuits ⊢
      exact hsuits

end Voter

end MavenUpgrade

import Mathlib
import MavenUpgrade.Proofs.Collection.Sort
import MavenUpgrade.Proofs.Version.Order
import MavenUpgrade.Range.Basic

/-!
# The latest version of a list

Where the order is transitive on some versions, none of them exceeds the one that is taken for the
latest (`isLatest_of_latest?`). There may be several such versions, but they are equally high
(`IsLatest.compareText_eq`) and compare alike with every other version (`compareText_congr`), so
the order in which the versions are listed does not matter.
-/

namespace MavenUpgrade.Version

/-! ## Comparing texts -/

theorem compareText_self (a : String) : compareText a a = .eq :=
  Part.compareParts_self _

/-- The comparison is reversed when the texts change sides. -/
theorem compareText_swap (a b : String) : compareText b a = (compareText a b).swap :=
  Part.compareParts_swap _ _

/-- Of two texts one is not higher than the other. -/
theorem compareText_ne_gt_of_gt {a b : String} (h : compareText a b = .gt) :
    compareText b a ≠ .gt := by
  rw [compareText_swap a b, h]
  decide

/-- A text is below another one that is not below it. -/
theorem compareText_eq_gt {a b : String} (hle : compareText a b ≠ .gt)
    (hne : compareText a b ≠ .eq) : compareText b a = .gt := by
  rw [compareText_swap a b, Ordering.swap_eq_gt]
  cases h : compareText a b with
  | lt => rfl
  | eq => exact absurd h hne
  | gt => exact absurd h hle

theorem IsOrdered.mono {vs ws : List String} (h : IsOrdered ws) (hsub : vs ⊆ ws) : IsOrdered vs :=
  fun a ha b hb c hc => h a (hsub ha) b (hsub hb) c (hsub hc)

/-- Texts that are equally high compare alike with a third one. -/
theorem compareText_congr {vs : List String} (h : IsOrdered vs) {a b c : String} (ha : a ∈ vs)
    (hb : b ∈ vs) (hc : c ∈ vs) (heq : compareText a b = .eq) :
    compareText a c = compareText b c := by
  have hab : compareText a b ≠ .gt := by rw [heq]; decide
  have hba : compareText b a ≠ .gt := by rw [compareText_swap a b, heq]; decide
  have hbelow : compareText a c ≠ .gt ↔ compareText b c ≠ .gt :=
    ⟨h b hb a ha c hc hba, h a ha b hb c hc hab⟩
  have habove : compareText c a ≠ .gt ↔ compareText c b ≠ .gt :=
    ⟨fun hca => h c hc a ha b hb hca hab, fun hcb => h c hc b hb a ha hcb hba⟩
  rw [compareText_swap a c, compareText_swap b c] at habove
  cases hac : compareText a c <;> cases hbc : compareText b c <;> simp_all

/-! ## The latest version -/

/-- A version of a list that none of the list exceeds. -/
structure IsLatest (versions : List String) (best : String) : Prop where
  mem : best ∈ versions
  not_gt : ∀ v ∈ versions, compareText v best ≠ .gt

/-- Versions that none exceeds are equally high. -/
theorem IsLatest.compareText_eq {versions : List String} {a b : String}
    (ha : IsLatest versions a) (hb : IsLatest versions b) : compareText a b = .eq :=
  Part.compareParts_antisymm (hb.not_gt a ha.mem) (ha.not_gt b hb.mem)

theorem IsLatest.of_perm {vs ws : List String} {best : String} (h : IsLatest vs best)
    (hperm : vs.Perm ws) : IsLatest ws best :=
  ⟨hperm.mem_iff.mp h.mem, fun v hv => h.not_gt v (hperm.mem_iff.mpr hv)⟩

theorem latest?_eq_none_iff {versions : List String} : latest? versions = none ↔ versions = [] := by
  cases versions with
  | nil => exact iff_of_true rfl rfl
  | cons v vs => exact iff_of_false nofun nofun

/-- Of a list with a version there is a latest one. -/
theorem exists_latest? {versions : List String} {v : String} (h : v ∈ versions) :
    ∃ best, latest? versions = some best :=
  Option.ne_none_iff_exists'.mp fun hnone =>
    List.ne_nil_of_mem h (latest?_eq_none_iff.mp hnone)

/-- The latest version is one of the versions. -/
theorem mem_of_latest? {versions : List String} {best : String}
    (h : latest? versions = some best) : best ∈ versions := by
  cases versions with
  | nil => cases h
  | cons v vs =>
    rw [← Option.some.inj h]
    exact foldl_mem (fun _ _ => by split <;> simp) v vs

/-- The later one of two versions, and the second one where they are equally high. -/
def later (a b : String) : String :=
  if compareText a b = .gt then a else b

/-- The later one of two versions is one of them and not below any of them. -/
theorem isLatest_later (a b : String) : IsLatest [a, b] (later a b) := by
  have hself (v : String) : compareText v v ≠ .gt := by
    rw [compareText_self]
    decide
  rw [later]
  split
  · next h =>
    refine ⟨List.mem_cons_self, ?_⟩
    rw [List.forall_mem_cons, List.forall_mem_singleton]
    exact ⟨hself a, compareText_ne_gt_of_gt h⟩
  · next h =>
    refine ⟨List.mem_cons_of_mem a List.mem_cons_self, ?_⟩
    rw [List.forall_mem_cons, List.forall_mem_singleton]
    exact ⟨h, hself b⟩

/-- The later one of a version and the latest one of others is not exceeded by any of them. -/
theorem IsLatest.later {v : String} {versions : List String} {best : String}
    (hbest : IsLatest versions best) (h : IsOrdered (v :: versions)) :
    IsLatest (v :: versions) (Version.later best v) := by
  obtain ⟨hmem, hle⟩ := isLatest_later best v
  rw [List.forall_mem_cons, List.forall_mem_singleton] at hle
  have hlater : Version.later best v ∈ v :: versions := by
    rcases List.mem_cons.mp hmem with hmem | hmem
    · rw [hmem]
      exact List.mem_cons_of_mem v hbest.mem
    · rw [List.mem_singleton.mp hmem]
      exact List.mem_cons_self
  refine ⟨hlater, List.forall_mem_cons.mpr ⟨hle.2, fun w hw => ?_⟩⟩
  exact h w (List.mem_cons_of_mem v hw) best (List.mem_cons_of_mem v hbest.mem) _ hlater
    (hbest.not_gt w hw) hle.1

/-- Going through the versions keeps the latest one so far. -/
theorem isLatest_foldl {v : String} {vs : List String} (h : IsOrdered (v :: vs)) :
    IsLatest (v :: vs) (vs.foldl later v) := by
  induction vs generalizing v with
  | nil =>
    refine ⟨List.mem_cons_self, List.forall_mem_singleton.mpr ?_⟩
    rw [List.foldl_nil, compareText_self]
    decide
  | cons w ws ih =>
    -- the later one of the first two stands for both of them
    have hlater := isLatest_later v w
    rw [List.foldl_cons]
    generalize later v w = u at hlater ⊢
    have hsub : u :: ws ⊆ v :: w :: ws :=
      List.cons_subset.mpr ⟨List.subset_append_left [v, w] ws hlater.mem,
        List.subset_append_right [v, w] ws⟩
    have hall := ih (h.mono hsub)
    have hu : compareText u (ws.foldl later u) ≠ .gt := hall.not_gt u List.mem_cons_self
    refine ⟨hsub hall.mem, fun x hx => ?_⟩
    rcases List.mem_append.mp (show x ∈ [v, w] ++ ws from hx) with hx' | hx'
    · exact h x hx u (hsub List.mem_cons_self) _ (hsub hall.mem) (hlater.not_gt x hx') hu
    · exact hall.not_gt x (List.mem_cons_of_mem u hx')

/-- **No version exceeds the latest one**, where the order is transitive. -/
theorem isLatest_of_latest? {versions : List String} (h : IsOrdered versions) {best : String}
    (hbest : latest? versions = some best) : IsLatest versions best := by
  cases versions with
  | nil => cases hbest
  | cons v vs =>
    obtain rfl := Option.some.inj hbest
    exact isLatest_foldl h

/-! ## The earliest version -/

theorem earliest?_eq_none_iff {versions : List String} :
    earliest? versions = none ↔ versions = [] := by
  cases versions with
  | nil => exact iff_of_true rfl rfl
  | cons v vs => exact iff_of_false nofun nofun

/-- The earliest version is one of the versions. -/
theorem mem_of_earliest? {versions : List String} {first : String}
    (h : earliest? versions = some first) : first ∈ versions := by
  cases versions with
  | nil => cases h
  | cons v vs =>
    rw [← Option.some.inj h]
    exact foldl_mem (fun _ _ => by split <;> simp) v vs

end MavenUpgrade.Version

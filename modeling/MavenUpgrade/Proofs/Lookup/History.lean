import Mathlib
import MavenUpgrade.Collection.OrderedMap
import MavenUpgrade.Lookup.Batch

/-!
# Histories of a batch

What may happen to a batch of lookups, in whatever order, until every lookup is reported or the
batch is given up. Each requested lookup is in one place at any time: it waits, it runs, it is
answered or it is reported (`History.accounted`). From this follow the limit on running lookups,
what is reported, what the batch comes to, and that it comes to an end unless it is given up
(`outcomes_of_history`). The batch that is run has such a history (`exists_history_run`).
-/

namespace MavenUpgrade.Batch

/-! ## Events -/

/-- What may happen to a batch. -/
inductive Event where
  /-- A waiting lookup takes a slot. -/
  | begins (p : Package)
  /-- A running lookup is answered and gives its slot back. -/
  | answers (p : Package) (l : Lookup)
  /-- The completion of a lookup is observed, and reported. -/
  | reports (p : Package) (l : Lookup)
  /-- The batch is given up: it is cancelled, or its time is over. -/
  | stops
  deriving DecidableEq, Repr

/-- The completion that an event observes. -/
def Event.observed? : Event → Option (Package × Lookup)
  | reports p l => some (p, l)
  | _ => none

/-- A step of a batch, with what happens in it. -/
inductive Happens (slots : Nat) (answer? : Package → Option Lookup) :
    Batch → Event → Batch → Prop
  | begins (before) {after running answered reported} {p : Package} :
      running.length < slots →
      Happens slots answer? ⟨before ++ p :: after, running, answered, reported⟩ (.begins p)
        ⟨before ++ after, running ++ [p], answered, reported⟩
  | answers (before) {waiting after answered reported} {p : Package} {l : Lookup} :
      answer? p = some l →
      Happens slots answer? ⟨waiting, before ++ p :: after, answered, reported⟩ (.answers p l)
        ⟨waiting, before ++ after, answered ++ [(p, l)], reported⟩
  | reports (before) {waiting running after reported} {p : Package} {l : Lookup} :
      Happens slots answer? ⟨waiting, running, before ++ (p, l) :: after, reported⟩ (.reports p l)
        ⟨waiting, running, before ++ after, reported ++ [(p, l)]⟩

/-- The steps of a batch are those in which something happens. -/
theorem step_iff_happens {slots : Nat} {answer? : Package → Option Lookup} {b c : Batch} :
    Step slots answer? b c ↔ ∃ e, Happens slots answer? b e c := by
  constructor
  · intro h
    cases h with
    | begin hs => exact ⟨_, .begins _ hs⟩
    | answer hl => exact ⟨_, .answers _ hl⟩
    | report => exact ⟨_, .reports _⟩
  · rintro ⟨e, h⟩
    cases h with
    | begins before hs => exact .begin hs
    | answers before hl => exact .answer hl
    | reports => exact .report

/-- The histories of a batch: what happened so far, and the state that this led to. Nothing happens
to a batch that has been given up. -/
inductive History (slots : Nat) (answer? : Package → Option Lookup) (packages : List Package) :
    List Event → Batch → Prop
  | start : History slots answer? packages [] (start packages)
  | next {events b e c} : History slots answer? packages events b → .stops ∉ events →
      Happens slots answer? b e c → History slots answer? packages (events ++ [e]) c
  | stop {events b} : History slots answer? packages events b → .stops ∉ events →
      History slots answer? packages (events ++ [.stops]) b

variable {slots concurrency : Nat} {answer? : Package → Option Lookup} {packages : List Package}
  {events : List Event} {b c : Batch}

/-! ## Where each lookup is -/

/-- The packages of a batch, place by place. -/
def places (b : Batch) : List Package :=
  b.waiting ++ b.running ++ b.answered.map Prod.fst ++ b.done

/-- The account of a batch after some events. -/
structure Accounted (slots : Nat) (answer? : Package → Option Lookup) (packages : List Package)
    (events : List Event) (b : Batch) : Prop where
  /-- Every running lookup holds a slot. -/
  limited : b.running.length ≤ slots
  /-- Each requested lookup is in one place. -/
  placed : b.places.Perm packages
  /-- Every answer is that of the source. -/
  truthful : ∀ e ∈ b.answered ++ b.reported, answer? e.1 = some e.2
  /-- What is reported is what was observed. -/
  observed : b.reported = events.filterMap Event.observed?
  /-- Each lookup takes no more than three steps. -/
  bounded : (events.filter (· ≠ .stops)).length + b.remaining = 3 * packages.length

theorem accounted_start (slots : Nat) (answer? : Package → Option Lookup)
    (packages : List Package) : Accounted slots answer? packages [] (start packages) := by
  refine ⟨Nat.zero_le _, ?_, ?_, rfl, ?_⟩
  · simp [places, start, done]
  · simp [start]
  · simp [start, remaining]

/-- A lookup changes its place, and no lookup is lost or added. -/
theorem Happens.places_perm {e : Event} (h : Happens slots answer? b e c) :
    c.places.Perm b.places := by
  rw [List.perm_iff_count]
  intro q
  cases h <;>
    simp only [places, done, List.map_append, List.map_cons, List.map_nil, List.count_append,
      List.count_cons, List.count_nil] <;> omega

/-- What is observed is reported, and nothing else. -/
theorem Happens.reported_eq {e : Event} (h : Happens slots answer? b e c) :
    c.reported = b.reported ++ e.observed?.toList := by
  cases h with
  | begins => exact (List.append_nil _).symm
  | answers => exact (List.append_nil _).symm
  | reports => rfl

theorem Happens.ne_stops {e : Event} (h : Happens slots answer? b e c) : e ≠ .stops := by
  cases h <;> exact Event.noConfusion

/-- Whatever happens keeps the account. -/
theorem Happens.accounted {e : Event} (h : Happens slots answer? b e c)
    (hb : Accounted slots answer? packages events b) :
    Accounted slots answer? packages (events ++ [e]) c := by
  refine ⟨?_, h.places_perm.trans hb.placed, ?_, ?_, ?_⟩
  · have hlimited := hb.limited
    cases h with
    | begins before hs =>
      rw [List.length_append, List.length_singleton]
      omega
    | answers =>
      simp only [List.length_append, List.length_cons] at hlimited ⊢
      omega
    | reports => exact hlimited
  · have htruthful := hb.truthful
    intro entry he
    cases h with
    | begins => exact htruthful entry he
    | answers before hl =>
      -- the new answer is that of the source
      simp only [List.mem_append, List.mem_singleton] at he
      rcases he with (he | rfl) | he
      · exact htruthful entry (List.mem_append_left _ he)
      · exact hl
      · exact htruthful entry (List.mem_append_right _ he)
    | reports =>
      apply htruthful entry
      simp only [List.mem_append, List.mem_cons] at he ⊢
      tauto
  · rw [h.reported_eq, hb.observed, List.filterMap_append]
    cases e <;> rfl
  · have hstep := remaining_of_step (step_iff_happens.mpr ⟨e, h⟩)
    have hbounded := hb.bounded
    rw [List.filter_append, List.filter_cons_of_pos (by simpa using h.ne_stops), List.filter_nil,
      List.length_append, List.length_singleton]
    omega

/-- **The account holds after any history.** -/
theorem History.accounted (h : History slots answer? packages events b) :
    Accounted slots answer? packages events b := by
  induction h with
  | start => exact accounted_start slots answer? packages
  | next _ _ he ih => exact he.accounted ih
  | @stop events b _ _ ih =>
    refine ⟨ih.limited, ih.placed, ih.truthful, ?_, ?_⟩
    · rw [List.filterMap_append, ← ih.observed]
      exact (List.append_nil _).symm
    · rw [← ih.bounded]
      simp

/-! ## What a batch comes to -/

/-- The outcomes are listed by package. -/
theorem lookup_outcomes (b : Batch) {p : Package} (hp : p ∈ packages) :
    (b.outcomes packages).lookup p = some (b.outcome p) := by
  have hmap (ps : List Package) (h : p ∈ ps) :
      (ps.map fun p => (p, b.outcome p)).lookup p = some (b.outcome p) := by
    induction ps with
    | nil => cases h
    | cons q ps ih =>
      rw [List.map_cons, OrderedMap.lookup_cons_entry]
      split
      · next heq => rw [heq]
      · next hne => exact ih ((List.mem_cons.mp h).resolve_left hne)
  exact hmap _ (mem_distinct.mpr hp)

/-- A reported lookup comes to the answer of the source. -/
theorem Accounted.outcome_of_mem (h : Accounted slots answer? packages events b) {p : Package}
    (hp : p ∈ b.done) : answer? p = some (b.outcome p) := by
  have hsome : (b.reported.reverse.lookup p).isSome = true := by
    rw [List.lookup_isSome_iff]
    obtain ⟨e, he, rfl⟩ := List.mem_map.mp hp
    exact ⟨e, List.mem_reverse.mpr he, beq_self_eq_true _⟩
  obtain ⟨l, hl⟩ := Option.isSome_iff_exists.mp hsome
  obtain ⟨before, after, hsplit, -⟩ := List.lookup_eq_some_iff.mp hl
  have hmem : (p, l) ∈ b.reported := by
    rw [← List.mem_reverse, hsplit]
    simp
  rw [outcome, hl]
  exact h.truthful (p, l) (List.mem_append_right _ hmem)

/-- A lookup that is not reported counts as cancelled. -/
theorem outcome_of_not_mem {p : Package} (hp : p ∉ b.done) : b.outcome p = .cancelled := by
  have hnone : b.reported.reverse.lookup p = none := by
    rw [List.lookup_eq_none_iff]
    intro e he
    rw [bne_iff_ne]
    rintro rfl
    exact hp (List.mem_map_of_mem (List.mem_reverse.mp he))
  rw [outcome, hnone]
  rfl

/-! ## When a batch ends -/

/-- Every lookup is reported. -/
def IsOver (b : Batch) : Prop :=
  b.waiting = [] ∧ b.running = [] ∧ b.answered = []

/-- When a batch is over, the reported lookups are the requested ones. -/
theorem Accounted.perm_of_isOver (h : Accounted slots answer? packages events b)
    (ho : b.IsOver) : b.done.Perm packages := by
  obtain ⟨hw, hr, ha⟩ := ho
  have hplaced := h.placed
  rw [places, hw, hr, ha] at hplaced
  exact hplaced

/-- A running lookup is a requested one. -/
theorem Accounted.mem_of_running (h : Accounted slots answer? packages events b) {p : Package}
    (hp : p ∈ b.running) : p ∈ packages := by
  apply h.placed.mem_iff.mp
  simp [places, hp]

/-- A waiting lookup may begin exactly while there is a free slot. -/
theorem happens_begins_iff {p : Package} :
    (∃ c, Happens slots answer? b (.begins p) c) ↔ p ∈ b.waiting ∧ b.running.length < slots := by
  obtain ⟨waiting, running, answered, reported⟩ := b
  constructor
  · rintro ⟨c, h⟩
    cases h with
    | begins before hs => exact ⟨List.mem_append_right _ List.mem_cons_self, hs⟩
  · rintro ⟨hp, hs⟩
    obtain ⟨before, after, rfl⟩ := List.append_of_mem hp
    exact ⟨_, .begins before hs⟩

/-- Where there are slots and every running lookup has an answer, something happens to a batch
until it is over. -/
theorem exists_happens (hslots : 0 < slots) (hall : ∀ p ∈ b.running, (answer? p).isSome = true)
    (h : ¬ b.IsOver) : ∃ e c, Happens slots answer? b e c := by
  obtain ⟨waiting, running, answered, reported⟩ := b
  cases answered with
  | cons e rest => exact ⟨_, _, .reports []⟩
  | nil =>
    cases running with
    | cons p rest =>
      obtain ⟨l, hl⟩ := Option.isSome_iff_exists.mp (hall p List.mem_cons_self)
      exact ⟨_, _, .answers [] hl⟩
    | nil =>
      cases waiting with
      | cons p rest => exact ⟨_, _, .begins [] hslots⟩
      | nil => exact absurd ⟨rfl, rfl, rfl⟩ h

/-! ## Going on to the end -/

theorem firstAnswered?_eq_none {running : List Package}
    (h : firstAnswered? answer? running = none) {p : Package} (hp : p ∈ running) :
    answer? p = none := by
  induction running with
  | nil => cases hp
  | cons q rest ih =>
    rw [firstAnswered?] at h
    split at h
    · cases h
    · next hq =>
      rcases List.mem_cons.mp hp with rfl | hp
      · exact hq
      · exact ih (Option.map_eq_none_iff.mp h) hp

/-- No step is picked only where there is nothing to report, nothing to begin and no answer. -/
theorem stuck_of_next? (h : b.next? slots answer? = none) :
    b.answered = [] ∧ (b.waiting = [] ∨ slots ≤ b.running.length) ∧
      ∀ p ∈ b.running, answer? p = none := by
  unfold next? at h
  split at h
  · cases h
  · next ha =>
    split at h
    · cases h
    · next hne =>
      refine ⟨ha, ?_, fun p hp => firstAnswered?_eq_none (Option.map_eq_none_iff.mp h) hp⟩
      by_cases hs : b.running.length < slots
      · left
        cases hw : b.waiting with
        | nil => rfl
        | cons p rest => exact (hne p rest hw (decide_eq_true hs)).elim
      · right
        omega

/-- Where no step is picked, nothing may happen. -/
theorem not_happens_of_next? (h : b.next? slots answer? = none) (e : Event) (c : Batch) :
    ¬ Happens slots answer? b e c := by
  intro he
  obtain ⟨ha, hw, hr⟩ := stuck_of_next? h
  cases he with
  | begins before hs =>
    rcases hw with hw | hw
    · simp at hw
    · exact Nat.lt_irrefl _ (Nat.lt_of_lt_of_le hs hw)
  | answers before hl =>
    have hnone := hr _ (List.mem_append_right _ List.mem_cons_self)
    rw [hl] at hnone
    cases hnone
  | reports => simp at ha

/-- A history that has not been given up goes on until nothing more may happen. -/
theorem History.exists_finish (h : History slots answer? packages events b)
    (hs : .stops ∉ events) :
    ∃ more, .stops ∉ more ∧
      History slots answer? packages (events ++ more) (b.finish slots answer?) ∧
      ∀ e c, ¬ Happens slots answer? (b.finish slots answer?) e c := by
  induction b using Batch.finish.induct slots answer? generalizing events with
  | case1 b c hnext ih =>
    obtain ⟨e, he⟩ := step_iff_happens.mp (step_of_next? hnext)
    have hgone : .stops ∉ events ++ [e] := by
      rw [List.mem_append, List.mem_singleton, not_or]
      exact ⟨hs, he.ne_stops.symm⟩
    obtain ⟨more, hm, hmore, hend⟩ := ih (h.next hs he) hgone
    rw [finish, hnext]
    refine ⟨e :: more, ?_, ?_, hend⟩
    · rw [List.mem_cons, not_or]
      exact ⟨he.ne_stops.symm, hm⟩
    · rw [List.append_cons]
      exact hmore
  | case2 b hnext =>
    rw [finish, hnext]
    refine ⟨[], List.not_mem_nil, ?_, not_happens_of_next? hnext⟩
    rw [List.append_nil]
    exact h

/-- **The batch that is run has a history, and unless it is cancelled nothing more may happen to
it.** -/
theorem exists_history_run (concurrency : Nat) (cancelled : Bool)
    (answer? : Package → Option Lookup) (packages : List Package) :
    ∃ events, History (Batch.slots concurrency) answer? packages events
        (run concurrency cancelled answer? packages) ∧
      (cancelled = false → ∀ e c, ¬ Happens (Batch.slots concurrency) answer?
        (run concurrency cancelled answer? packages) e c) := by
  cases cancelled with
  | true => exact ⟨_, .stop .start List.not_mem_nil, fun hc => by cases hc⟩
  | false =>
    have hstart : History (Batch.slots concurrency) answer? packages [] _ := .start
    obtain ⟨more, -, h, hend⟩ := hstart.exists_finish List.not_mem_nil
    exact ⟨_, h, fun _ => hend⟩

/-! ## The conduct of a batch -/

/-- How a batch is conducted, as can be told after some events. -/
structure Conduct (concurrency : Nat) (answer? : Package → Option Lookup) (packages : List Package)
    (events : List Event) (b : Batch) : Prop where
  /-- No more lookups run than the limit allows. -/
  limited : b.running.length ≤ max concurrency 1
  /-- A waiting lookup may begin exactly while fewer run. -/
  begins_iff : ∀ p, (∃ c, Happens (Batch.slots concurrency) answer? b (.begins p) c) ↔
    p ∈ b.waiting ∧ b.running.length < max concurrency 1
  /-- The reports are the observed completions, one for each. -/
  observed : b.done = (events.filterMap Event.observed?).map Prod.fst
  /-- No lookup is reported more often than it was requested. -/
  requested : b.done.Subperm packages
  /-- There is one outcome for a package. -/
  nodup_keys : ((b.outcomes packages).map Prod.fst).Nodup
  /-- There are outcomes for the requested packages, and for no others. -/
  mem_keys_iff : ∀ p, p ∈ (b.outcomes packages).map Prod.fst ↔ p ∈ packages
  /-- The outcome of an observed lookup is the answer of the source. -/
  answered : ∀ p ∈ packages, p ∈ b.done → (b.outcomes packages).lookup p = answer? p
  /-- The outcome of any other lookup is a cancelled one. -/
  cancelled : ∀ p ∈ packages, p ∉ b.done → (b.outcomes packages).lookup p = some .cancelled
  /-- Each lookup takes three steps, of which some are left. -/
  bounded : (events.filter (· ≠ .stops)).length + b.remaining = 3 * packages.length
  /-- Unless it is given up, a batch whose lookups have answers goes on until it is over. -/
  goes_on : (∀ p ∈ packages, (answer? p).isSome = true) → .stops ∉ events → ¬ b.IsOver →
    ∃ e c, Happens (Batch.slots concurrency) answer? b e c ∧
      History (Batch.slots concurrency) answer? packages (events ++ [e]) c
  /-- When nothing more may happen to such a batch, every outcome is the answer of the source. -/
  complete : (∀ p ∈ packages, (answer? p).isSome = true) →
    (∀ e c, ¬ Happens (Batch.slots concurrency) answer? b e c) →
    b.IsOver ∧ ∀ p ∈ packages, (b.outcomes packages).lookup p = answer? p
  /-- It comes there without being given up. -/
  ends : (∀ p ∈ packages, (answer? p).isSome = true) → .stops ∉ events →
    ∃ more c, .stops ∉ more ∧
      History (Batch.slots concurrency) answer? packages (events ++ more) c ∧ c.IsOver ∧
      ∀ p ∈ packages, (c.outcomes packages).lookup p = answer? p

theorem slots_pos (concurrency : Nat) : 0 < Batch.slots concurrency :=
  Nat.lt_of_lt_of_le Nat.one_pos (le_max_right _ _)

theorem keys_outcomes (b : Batch) (packages : List Package) :
    (b.outcomes packages).map Prod.fst = distinct packages := by
  rw [outcomes, List.map_map]
  exact List.map_id _

/-- The outcome of a reported lookup is the answer of the source. -/
theorem Accounted.lookup_outcomes_of_mem (h : Accounted slots answer? packages events b)
    {p : Package} (hp : p ∈ packages) (hd : p ∈ b.done) :
    (b.outcomes packages).lookup p = answer? p := by
  rw [lookup_outcomes b hp, h.outcome_of_mem hd]

/-- Where every lookup has an answer and nothing more may happen, the batch is over, and every
outcome is the answer of the source. -/
theorem Accounted.complete (h : Accounted slots answer? packages events b) (hslots : 0 < slots)
    (hall : ∀ p ∈ packages, (answer? p).isSome = true)
    (hstuck : ∀ e c, ¬ Happens slots answer? b e c) :
    b.IsOver ∧ ∀ p ∈ packages, (b.outcomes packages).lookup p = answer? p := by
  have hover : b.IsOver := by
    by_contra hnot
    obtain ⟨e, c, he⟩ := exists_happens hslots (fun p hp => hall p (h.mem_of_running hp)) hnot
    exact hstuck e c he
  refine ⟨hover, fun p hp => ?_⟩
  exact h.lookup_outcomes_of_mem hp ((h.perm_of_isOver hover).mem_iff.mpr hp)

/-- **How a batch is conducted, whatever happens to it in whatever order.** The limit is kept and
made use of. The reports are the observed completions, one for each. The outcomes are those of the
requested packages: the answer of the source where a completion was observed, and a cancelled lookup
everywhere else. Unless it is given up, a batch whose lookups have answers goes on until it is over,
which takes three steps for each lookup, and whatever the order and the limit, every outcome is then
the answer of the source. -/
theorem outcomes_of_history
    (h : History (Batch.slots concurrency) answer? packages events b) :
    Conduct concurrency answer? packages events b := by
  have ha := h.accounted
  constructor
  case limited => exact ha.limited
  case begins_iff => exact fun p => happens_begins_iff
  case observed => rw [done, ha.observed]
  case requested =>
    have hsublist : b.done.Sublist b.places := List.sublist_append_right _ _
    exact hsublist.subperm.trans ha.placed.subperm
  case nodup_keys =>
    rw [keys_outcomes]
    exact nodup_distinct packages
  case mem_keys_iff =>
    intro p
    rw [keys_outcomes, mem_distinct]
  case answered => exact fun p hp hd => ha.lookup_outcomes_of_mem hp hd
  case cancelled =>
    intro p hp hd
    rw [lookup_outcomes b hp, outcome_of_not_mem hd]
  case bounded => exact ha.bounded
  case goes_on =>
    intro hall hs hover
    obtain ⟨e, c, he⟩ := exists_happens (slots_pos concurrency)
      (fun p hp => hall p (ha.mem_of_running hp)) hover
    exact ⟨e, c, he, h.next hs he⟩
  case complete => exact fun hall hstuck => ha.complete (slots_pos concurrency) hall hstuck
  case ends =>
    intro hall hs
    obtain ⟨more, hm, hmore, hstuck⟩ := h.exists_finish hs
    obtain ⟨hover, hvalues⟩ := hmore.accounted.complete (slots_pos concurrency) hall hstuck
    exact ⟨more, _, hm, hmore, hover, hvalues⟩

/-- Three packages to look up. -/
def threePackages : List Package :=
  [.ofCoordinates "g" "b", .ofCoordinates "g" "c", .ofCoordinates "g" "d"]

/-- One lookup of three is answered and reported, another one is running when the batch is given
up, and the third has not begun. Had the batch not been given up, it would have gone on until all
three had their answers. -/
theorem outcomes_of_stopped_batch :
    ∃ events b, .stops ∉ events ∧
      History (Batch.slots 0) (fun _ => some (.found ["1.0"])) threePackages
        (events ++ [.stops]) b ∧
      b.done = [.ofCoordinates "g" "c"] ∧ b.running = [.ofCoordinates "g" "b"] ∧
      b.running.length ≤ 1 ∧
      (b.outcomes threePackages).lookup (.ofCoordinates "g" "c") = some (.found ["1.0"]) ∧
      (b.outcomes threePackages).lookup (.ofCoordinates "g" "b") = some .cancelled ∧
      ∃ more c, .stops ∉ more ∧
        History (Batch.slots 0) (fun _ => some (.found ["1.0"])) threePackages
          (events ++ more) c ∧ c.IsOver ∧
        ∀ p ∈ threePackages, (c.outcomes threePackages).lookup p = some (.found ["1.0"]) := by
  have h₀ : History (Batch.slots 0) (fun _ => some (.found ["1.0"])) threePackages [] _ := .start
  have h₁ := h₀.next List.not_mem_nil (.begins [.ofCoordinates "g" "b"] (by decide))
  have h₂ := h₁.next (by decide) (.answers [] rfl)
  have h₃ := h₂.next (by decide) (.reports [])
  have h₄ := h₃.next (by decide) (.begins [] (by decide))
  have hstopped := outcomes_of_history (h₄.stop (by decide))
  have hgone := outcomes_of_history h₄
  exact ⟨_, _, by decide, h₄.stop (by decide), rfl, rfl, hstopped.limited,
    hstopped.answered _ (by decide) (by decide), hstopped.cancelled _ (by decide) (by decide),
    hgone.ends (fun _ _ => rfl) (by decide)⟩

end MavenUpgrade.Batch

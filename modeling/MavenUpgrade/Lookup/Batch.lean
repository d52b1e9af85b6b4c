import MavenUpgrade.Collection.Distinct
import MavenUpgrade.Collection.OrderedMap
import MavenUpgrade.Lookup.Basic

/-!
# Batches of lookups

Many packages are looked up at once, a limited number at a time. A lookup waits for a slot, holds
it until its answer is there, and is then reported. `Batch.Step` says what may happen next, in
whatever order; `Batch.next?` picks one of these steps, and `Batch.finish` goes on until none is
left. A package whose lookup is not reported when the batch is given up counts as cancelled.
-/

namespace MavenUpgrade

/-- The state of a batch of lookups. -/
structure Batch where
  /-- The packages whose lookup has not started. -/
  waiting : List Package
  /-- The packages whose lookup holds a slot. -/
  running : List Package
  /-- The lookups that are answered but not reported. -/
  answered : List (Package × Lookup)
  /-- The reported lookups, in the order of the reports. -/
  reported : List (Package × Lookup)
  deriving DecidableEq

namespace Batch

/-- The batch of the given packages before any lookup has started. -/
def start (packages : List Package) : Batch :=
  ⟨packages, [], [], []⟩

/-- The number of slots of a batch; there is at least one. -/
def slots (concurrency : Nat) : Nat :=
  max concurrency 1

/-- What may happen to a batch next, where `answer?` gives the answers that come at all. -/
inductive Step (slots : Nat) (answer? : Package → Option Lookup) : Batch → Batch → Prop
  /-- A waiting lookup takes a free slot. -/
  | begin {before after running answered reported} {p : Package} :
      running.length < slots →
      Step slots answer? ⟨before ++ p :: after, running, answered, reported⟩
        ⟨before ++ after, running ++ [p], answered, reported⟩
  /-- A running lookup is answered and gives its slot back. -/
  | answer {waiting before after answered reported} {p : Package} {l : Lookup} :
      answer? p = some l →
      Step slots answer? ⟨waiting, before ++ p :: after, answered, reported⟩
        ⟨waiting, before ++ after, answered ++ [(p, l)], reported⟩
  /-- An answered lookup is reported. -/
  | report {waiting running before after reported} {e : Package × Lookup} :
      Step slots answer? ⟨waiting, running, before ++ e :: after, reported⟩
        ⟨waiting, running, before ++ after, reported ++ [e]⟩

/-- The first running lookup that has an answer: those before it, it, and those after it. -/
def firstAnswered? (answer? : Package → Option Lookup) :
    List Package → Option (List Package × Package × Lookup × List Package)
  | [] => none
  | p :: rest =>
    match answer? p with
    | some l => some ([], p, l, rest)
    | none => (firstAnswered? answer? rest).map fun (before, q, l, after) =>
        (p :: before, q, l, after)

theorem eq_of_firstAnswered? {answer? : Package → Option Lookup} {running before after p l}
    (h : firstAnswered? answer? running = some (before, p, l, after)) :
    running = before ++ p :: after ∧ answer? p = some l := by
  induction running generalizing before with
  | nil => simp [firstAnswered?] at h
  | cons q rest ih =>
    rw [firstAnswered?] at h
    split at h
    · next l' hl =>
      simp only [Option.some.injEq, Prod.mk.injEq] at h
      obtain ⟨rfl, rfl, rfl, rfl⟩ := h
      exact ⟨rfl, hl⟩
    · obtain ⟨⟨b, q', l', a⟩, hr, he⟩ := Option.map_eq_some_iff.mp h
      simp only [Prod.mk.injEq] at he
      obtain ⟨rfl, rfl, rfl, rfl⟩ := he
      obtain ⟨he, ha⟩ := ih hr
      exact ⟨by rw [he, List.cons_append], ha⟩

/--
The batch after its next step: an answer is reported as soon as it is there, lookups start in the
order of the packages, and of the running ones the first that has an answer is answered.
-/
def next? (slots : Nat) (answer? : Package → Option Lookup) (b : Batch) : Option Batch :=
  match b.answered with
  | e :: rest => some { b with answered := rest, reported := b.reported ++ [e] }
  | [] =>
    match b.waiting, decide (b.running.length < slots) with
    | p :: rest, true => some { b with waiting := rest, running := b.running ++ [p] }
    | _, _ =>
      (firstAnswered? answer? b.running).map fun (before, p, l, after) =>
        { b with running := before ++ after, answered := [(p, l)] }

/-- What is picked is one of the steps that may happen. -/
theorem step_of_next? {slots : Nat} {answer? : Package → Option Lookup} {b c : Batch}
    (h : b.next? slots answer? = some c) : Step slots answer? b c := by
  obtain ⟨waiting, running, answered, reported⟩ := b
  unfold next? at h
  split at h
  · next e rest ha =>
    obtain rfl := Option.some.inj h
    simp only at ha
    subst ha
    exact (.report : Step slots answer? ⟨waiting, running, [] ++ e :: rest, reported⟩
      ⟨waiting, running, [] ++ rest, reported ++ [e]⟩)
  · next ha =>
    simp only at ha h
    subst ha
    split at h
    · next p rest hr =>
      obtain rfl := Option.some.inj h
      exact (.begin (of_decide_eq_true hr) : Step slots answer? ⟨[] ++ p :: rest, running, [], reported⟩
        ⟨[] ++ rest, running ++ [p], [], reported⟩)
    · obtain ⟨⟨before, p, l, after⟩, hf, rfl⟩ := Option.map_eq_some_iff.mp h
      obtain ⟨rfl, hl⟩ := eq_of_firstAnswered? hf
      exact (.answer hl : Step slots answer? ⟨_, before ++ p :: after, [], reported⟩
        ⟨_, before ++ after, [] ++ [(p, l)], reported⟩)

/-- The number of steps that a batch may still take. -/
def remaining (b : Batch) : Nat :=
  3 * b.waiting.length + 2 * b.running.length + b.answered.length

/-- A step is one step less to take. -/
theorem remaining_of_step {slots : Nat} {answer? : Package → Option Lookup} {b c : Batch}
    (h : Step slots answer? b c) : c.remaining + 1 = b.remaining := by
  cases h <;>
    simp only [remaining, List.length_append, List.length_cons, List.length_nil] <;> omega

/-- The batch when nothing more happens. -/
def finish (slots : Nat) (answer? : Package → Option Lookup) (b : Batch) : Batch :=
  match _h : b.next? slots answer? with
  | some c => finish slots answer? c
  | none => b
termination_by b.remaining
decreasing_by have := remaining_of_step (step_of_next? _h); omega

/-- The outcome of a lookup when the batch is given up. -/
def outcome (b : Batch) (p : Package) : Lookup :=
  (b.reported.reverse.lookup p).getD .cancelled

/-- The outcomes of the given packages when the batch is given up. -/
def outcomes (b : Batch) (packages : List Package) : List (Package × Lookup) :=
  (distinct packages).map fun p => (p, b.outcome p)

/-- The packages whose lookup is reported, in the order of the reports. -/
def done (b : Batch) : List Package :=
  b.reported.map Prod.fst

/-- Looks packages up; a batch that is cancelled before it starts reports nothing. -/
def run (concurrency : Nat) (cancelled : Bool) (answer? : Package → Option Lookup)
    (packages : List Package) : Batch :=
  if cancelled then start packages
  else (start packages).finish (slots concurrency) answer?

end Batch

end MavenUpgrade

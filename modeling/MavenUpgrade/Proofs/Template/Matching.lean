import Mathlib
import MavenUpgrade.Collection.OrderedMap
import MavenUpgrade.Proofs.Template.Parsing
import MavenUpgrade.Template.Matching

/-!
# What a match means

The bindings that matching finds are found piece by piece (`Finds`), so that they fill the pieces to
make up the target (`matches?_sound`), and the values that it passes over would lead to nothing
(`matchFrom_of_unbound`). Where all placeholders carry one name, there is at most one value that does so
(`eq_of_filling_eq`).
-/

namespace MavenUpgrade.Template

/-! ## Soundness -/

/-- A text that begins with another one is that one and the rest. -/
theorem append_of_afterPrefix? {head target rest : List Char}
    (h : afterPrefix? head target = some rest) : head ++ rest = target := by
  rw [afterPrefix?] at h
  split at h
  · next hp =>
    obtain ⟨more, rfl⟩ := List.isPrefixOf_iff_prefix.mp hp
    rw [List.drop_left] at h
    rw [Option.some.inj h]
  · cases h

/-- A text that does not begin with the literal in front of the pieces is matched by nothing. -/
theorem matchFrom_eq_none {segments : List Segment} {target : List Char}
    (h : beginsWithLiteral segments target = false) (bound : Bindings) :
    matchFrom segments target bound = none := by
  cases segments with
  | nil => cases h
  | cons s rest =>
    cases s with
    | literal text =>
      rw [beginsWithLiteral] at h
      rw [matchFrom, afterPrefix?, if_neg (ne_true_of_eq_false h), Option.bind_none]
    | placeholder name => cases h

/-- **Passing over values that the next literal does not follow loses nothing**: a placeholder that
is not bound takes the shortest value that leaves an answer for the rest. -/
theorem matchFrom_of_unbound {name : String} {bound : Bindings} (hb : bound.lookup name = none)
    (rest : List Segment) (target : List Char) :
    matchFrom (.placeholder name :: rest) target bound =
      (List.range target.length).findSome? fun n =>
        matchFrom rest (target.drop (n + 1))
          (bound ++ [(name, String.ofList (target.take (n + 1)))]) := by
  rw [matchFrom, hb]
  dsimp only
  congr 1
  funext n
  by_cases hbegins : beginsWithLiteral rest (target.drop (n + 1)) = true
  · rw [if_pos hbegins]
  · rw [if_neg hbegins, matchFrom_eq_none (eq_false_of_ne_true hbegins)]

/-- A placeholder with a value makes up this value. -/
theorem filling_placeholder_of_some {value? : String → Option String} {name value : String}
    (hv : value? name = some value) (rest : List Segment) :
    filling value? (.placeholder name :: rest) = value.toList ++ filling value? rest := by
  show ((value? name).getD _).toList ++ filling value? rest = _
  rw [hv, Option.getD_some]

/-- The steps from given bindings to those that are found. Each piece takes the front of the target:
a literal its text, a placeholder the value that its name has, or one that is not empty if it has
none yet. -/
inductive Finds : List Segment → List Char → Bindings → Bindings → Prop where
  | done {bound : Bindings} : Finds [] [] bound bound
  | literal {text : String} {rest : List Segment} {target : List Char} {bound found : Bindings}
      (h : Finds rest target bound found) :
      Finds (.literal text :: rest) (text.toList ++ target) bound found
  | known {name value : String} {rest : List Segment} {target : List Char}
      {bound found : Bindings} (hb : bound.lookup name = some value)
      (h : Finds rest target bound found) :
      Finds (.placeholder name :: rest) (value.toList ++ target) bound found
  | taken {name value : String} {rest : List Segment} {target : List Char}
      {bound found : Bindings} (hb : bound.lookup name = none) (hne : value ≠ "")
      (h : Finds rest target (bound ++ [(name, value)]) found) :
      Finds (.placeholder name :: rest) (value.toList ++ target) bound found

/-- A value that is taken has at least one character. -/
theorem ofList_take_succ_ne {target : List Char} {n : Nat} (h : n < target.length) :
    String.ofList (target.take (n + 1)) ≠ "" := by
  intro hempty
  have hlength := congrArg (fun s => s.toList.length) hempty
  simp only [String.toList_ofList, List.length_take, String.toList_empty, List.length_nil]
    at hlength
  omega

/-- **Matching finds its bindings by such steps.** -/
theorem finds_of_matchFrom {segments : List Segment} {target : List Char} {bound found : Bindings}
    (h : matchFrom segments target bound = some found) : Finds segments target bound found := by
  induction segments generalizing target bound with
  | nil =>
    rw [matchFrom] at h
    split at h
    · next ht =>
      obtain rfl := Option.some.inj h
      rw [List.isEmpty_iff.mp ht]
      exact .done
    · cases h
  | cons s rest ih =>
    cases s with
    | literal text =>
      rw [matchFrom] at h
      obtain ⟨target', hp, hr⟩ := Option.bind_eq_some_iff.mp h
      rw [← append_of_afterPrefix? hp]
      exact .literal (ih hr)
    | placeholder name =>
      cases hb : bound.lookup name with
      | some value =>
        rw [matchFrom, hb] at h
        obtain ⟨target', hp, hr⟩ := Option.bind_eq_some_iff.mp h
        rw [← append_of_afterPrefix? hp]
        exact .known hb (ih hr)
      | none =>
        rw [matchFrom_of_unbound hb] at h
        obtain ⟨n, hn, hr⟩ := List.exists_of_findSome?_eq_some h
        have hstep := Finds.taken hb (ofList_take_succ_ne (List.mem_range.mp hn)) (ih hr)
        rwa [String.toList_ofList, List.take_append_drop] at hstep

section Finds

variable {segments : List Segment} {target : List Char} {bound found : Bindings}

/-- The given bindings are kept. -/
theorem Finds.lookup_eq (h : Finds segments target bound found) {name value : String}
    (hl : bound.lookup name = some value) : found.lookup name = some value := by
  induction h with
  | done => exact hl
  | literal h ih => exact ih hl
  | known hb h ih => exact ih hl
  | taken hb hne h ih => exact ih (by rw [List.lookup_append, hl, Option.some_or])

/-- The value that a placeholder takes is among the bindings that are found. -/
theorem Finds.lookup_taken {name value : String}
    (h : Finds segments target (bound ++ [(name, value)]) found) (hb : bound.lookup name = none) :
    found.lookup name = some value := by
  refine h.lookup_eq ?_
  rw [List.lookup_append, hb, Option.none_or, OrderedMap.lookup_cons_entry, if_pos rfl]

/-- Every placeholder is bound. -/
theorem Finds.isSome_lookup (h : Finds segments target bound found) :
    ∀ name, .placeholder name ∈ segments → (found.lookup name).isSome = true := by
  induction h with
  | done =>
    intro name hm
    cases hm
  | literal h ih => exact fun name hm => ih name (by simpa using hm)
  | known hb h ih =>
    intro name hm
    rcases List.mem_cons.mp hm with he | hm
    · rw [Segment.placeholder.inj he, h.lookup_eq hb]
      rfl
    · exact ih name hm
  | taken hb hne h ih =>
    intro name hm
    rcases List.mem_cons.mp hm with he | hm
    · rw [Segment.placeholder.inj he, h.lookup_taken hb]
      rfl
    · exact ih name hm

/-- The pieces make up the target. -/
theorem Finds.filling_eq (h : Finds segments target bound found) :
    filling (fun name => found.lookup name) segments = target := by
  induction h with
  | done => rfl
  | @literal text rest _ _ _ h ih =>
    show text.toList ++ filling _ rest = _
    rw [ih]
  | known hb h ih => rw [filling_placeholder_of_some (h.lookup_eq hb), ih]
  | taken hb hne h ih => rw [filling_placeholder_of_some (h.lookup_taken hb), ih]

end Finds

/-- A match binds every placeholder, and its values make up the target. -/
theorem matches?_sound {t : Template} {target : String} {found : Bindings}
    (h : t.matches? target = some found) :
    (∀ name, .placeholder name ∈ t.segments → (found.lookup name).isSome = true) ∧
      filling (fun name => found.lookup name) t.segments = target.toList := by
  rw [matches?] at h
  split at h
  · cases h
  · have hfinds := finds_of_matchFrom h
    exact ⟨hfinds.isSome_lookup, hfinds.filling_eq⟩

/-- The value of a placeholder is a part of what the pieces make up. -/
theorem infix_filling {segments : List Segment} {value? : String → Option String}
    {name value : String} (hm : .placeholder name ∈ segments) (hv : value? name = some value) :
    value.toList <:+: filling value? segments := by
  have hpiece := infix_filling_of_mem value? hm
  rwa [Segment.fill, hv, Option.getD_some] at hpiece

/-- What a match binds is a part of the target. -/
theorem infix_of_matches? {t : Template} {target name value : String} {found : Bindings}
    (h : t.matches? target = some found) (hm : .placeholder name ∈ t.segments)
    (hv : found.lookup name = some value) : value.toList <:+: target.toList := by
  obtain ⟨-, hfill⟩ := matches?_sound h
  rw [← hfill]
  exact infix_filling hm hv

/-! ## One name -/

/-- Longer values make up longer texts. -/
theorem length_filling_le {segments : List Segment} {x y : String}
    (h : x.toList.length ≤ y.toList.length) :
    (filling (fun _ => some x) segments).length ≤ (filling (fun _ => some y) segments).length ∧
      ∀ name, .placeholder name ∈ segments → x.toList.length < y.toList.length →
        (filling (fun _ => some x) segments).length <
          (filling (fun _ => some y) segments).length := by
  induction segments with
  | nil => exact ⟨le_refl _, fun _ hm => absurd hm List.not_mem_nil⟩
  | cons s rest ih =>
    obtain ⟨hle, hlt⟩ := ih
    cases s with
    | literal text =>
      show (text.toList ++ filling _ rest).length ≤ (text.toList ++ filling _ rest).length ∧
        ∀ name, _ → _ →
          (text.toList ++ filling _ rest).length < (text.toList ++ filling _ rest).length
      rw [List.length_append, List.length_append]
      refine ⟨by omega, fun name hm hxy => ?_⟩
      have := hlt name (by simpa using hm) hxy
      omega
    | placeholder n =>
      show (x.toList ++ filling _ rest).length ≤ (y.toList ++ filling _ rest).length ∧
        ∀ name, _ → _ → (x.toList ++ filling _ rest).length < (y.toList ++ filling _ rest).length
      rw [List.length_append, List.length_append]
      exact ⟨by omega, fun name _ hxy => by omega⟩

/-- One value for all placeholders is known from what the pieces make up. -/
theorem eq_of_filling_eq {segments : List Segment} {name x y : String}
    (hm : .placeholder name ∈ segments)
    (h : filling (fun _ => some x) segments = filling (fun _ => some y) segments) : x = y := by
  -- a longer value makes a longer text
  have hlength : x.toList.length = y.toList.length := by
    rcases Nat.lt_trichotomy x.toList.length y.toList.length with hxy | hxy | hxy
    · have := (length_filling_le (Nat.le_of_lt hxy)).2 name hm hxy
      rw [h] at this
      omega
    · exact hxy
    · have := (length_filling_le (Nat.le_of_lt hxy)).2 name hm hxy
      rw [h] at this
      omega
  induction segments with
  | nil => cases hm
  | cons s rest ih =>
    cases s with
    | literal text =>
      exact ih (by simpa using hm) (List.append_cancel_left h)
    | placeholder n =>
      have h' : x.toList ++ filling _ rest = y.toList ++ filling _ rest := h
      exact String.toList_inj.mp (List.append_inj_left h' hlength)

end MavenUpgrade.Template

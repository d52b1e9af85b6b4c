import Mathlib
import MavenUpgrade.Proofs.Template.Matching

/-!
# The preferred answer of a match

Matching looks for non-empty values of the placeholders under which a template renders to a target.
It finds an answer whenever there is one, binds each placeholder once, in the order in which they
first occur, and of all answers it finds the one with the shortest values in this order
(`matches?_iff_preferred`).
-/

namespace MavenUpgrade.Template

/-! ## Answers -/

/-- Values of the placeholders, none of them empty, under which a template renders to a text. -/
structure IsAnswer (t : Template) (target : String) (values : Bindings) : Prop where
  bound : ∀ name ∈ t.placeholders, ∃ value, values.lookup name = some value ∧ value ≠ ""
  renders : t.render values = target

/-- At the first of the names on which two bindings differ, the first one has the shorter value. -/
def IsPreferred (found other : Bindings) : List String → Prop
  | [] => True
  | name :: names => ∃ x y, found.lookup name = some x ∧ other.lookup name = some y ∧
      (x.length < y.length ∨ x = y ∧ IsPreferred found other names)

/-- Of two bindings that are preferred to each other, each has the values of the other one. -/
theorem lookup_eq_of_isPreferred {found other : Bindings} {names : List String}
    (h : IsPreferred found other names) (h' : IsPreferred other found names) :
    ∀ name ∈ names, found.lookup name = other.lookup name := by
  induction names with
  | nil =>
    intro name hn
    cases hn
  | cons first names ih =>
    obtain ⟨x, y, hx, hy, h⟩ := h
    obtain ⟨y', x', hy', hx', h'⟩ := h'
    obtain rfl : y = y' := Option.some.inj (hy.symm.trans hy')
    obtain rfl : x = x' := Option.some.inj (hx.symm.trans hx')
    rcases h with hlt | ⟨rfl, h⟩
    · rcases h' with hlt' | ⟨rfl, -⟩
      · omega
      · omega
    · rcases h' with hlt' | ⟨-, h'⟩
      · omega
      · intro name hn
        rcases List.mem_cons.mp hn with rfl | hn
        · rw [hx, hy]
        · exact ih h h' name hn

/-- A template renders to the text that its pieces make up. -/
theorem render_eq_iff (t : Template) (values : Bindings) (target : String) :
    t.render values = target ↔
      filling (fun name => values.lookup name) t.segments = target.toList := by
  rw [← String.toList_inj, render, String.toList_join, List.flatMap_map]
  rfl

/-! ## The names that are still to be bound -/

/-- The names of pieces that are not bound yet, each where it first occurs. -/
def newNames (segments : List Segment) (bound : Bindings) : List String :=
  (distinct (segments.filterMap Segment.name?)).filter fun name => (bound.lookup name).isNone

/-- Without bindings, all placeholders of a template are to be bound. -/
theorem newNames_nil (t : Template) : newNames t.segments [] = t.placeholders := by
  rw [newNames, List.filter_eq_self.mpr, placeholders]
  intro name _
  rfl

/-- A name that is bound is none of them. -/
theorem newNames_of_bound {name value : String} {bound : Bindings}
    (h : bound.lookup name = some value) (rest : List Segment) :
    newNames (.placeholder name :: rest) bound = newNames rest bound := by
  show (name :: (distinct (rest.filterMap Segment.name?)).filter (· ≠ name)).filter _ = _
  rw [List.filter_cons_of_neg (by rw [h]; exact Bool.false_ne_true), List.filter_filter, newNames]
  refine List.filter_congr fun n _ => ?_
  by_cases hn : n = name
  · rw [hn, h]
    rfl
  · rw [decide_eq_true hn, Bool.and_true]

/-- A name that is not bound is the first of them, and the others are those that remain when it is
bound. -/
theorem newNames_of_unbound {name : String} {bound : Bindings} (h : bound.lookup name = none)
    (value : String) (rest : List Segment) :
    newNames (.placeholder name :: rest) bound =
      name :: newNames rest (bound ++ [(name, value)]) := by
  show (name :: (distinct (rest.filterMap Segment.name?)).filter (· ≠ name)).filter _ = _
  rw [List.filter_cons_of_pos (by rw [h]; rfl), List.filter_filter, newNames]
  refine congrArg (name :: ·) (List.filter_congr fun n _ => ?_)
  rw [List.lookup_append, OrderedMap.lookup_cons_entry]
  by_cases hn : n = name
  · rw [if_pos hn, decide_eq_false (not_not.mpr hn), Bool.and_false, hn, h]
    rfl
  · rw [if_neg hn, decide_eq_true hn, Bool.and_true, List.lookup_nil, Option.or_none]

/-! ## What is bound -/

/-- Matching adds to the given bindings one for each name that is not bound yet, and none of the
added values is empty. -/
theorem Finds.exists_new {segments : List Segment} {target : List Char} {bound found : Bindings}
    (h : Finds segments target bound found) :
    ∃ new, found = bound ++ new ∧ new.map Prod.fst = newNames segments bound ∧
      ∀ e ∈ new, e.2 ≠ "" := by
  induction h with
  | done =>
    refine ⟨[], (List.append_nil _).symm, rfl, ?_⟩
    intro e he
    cases he
  | literal h ih => exact ih
  | known hb h ih =>
    rw [newNames_of_bound hb]
    exact ih
  | @taken name value rest _ bound _ hb hne h ih =>
    obtain ⟨new, rfl, hnames, hvalues⟩ := ih
    refine ⟨(name, value) :: new, List.append_assoc bound [(name, value)] new, ?_, ?_⟩
    · rw [List.map_cons, hnames, newNames_of_unbound hb]
    · rw [List.forall_mem_cons]
      exact ⟨hne, hvalues⟩

/-! ## Completeness and preference -/

/-- If some number gives something, then what is found is given by that number or an earlier one. -/
theorem exists_findSome?_range {α : Type} {f : Nat → Option α} {n last : Nat} {a : α}
    (hlast : last < n) (ha : f last = some a) :
    ∃ k ≤ last, ∃ b, f k = some b ∧ (List.range n).findSome? f = some b := by
  have hsome : ∃ k, (f k).isSome = true := ⟨last, by rw [ha]; rfl⟩
  obtain ⟨b, hb⟩ := Option.isSome_iff_exists.mp (Nat.find_spec hsome)
  have hle : Nat.find hsome ≤ last := Nat.find_min' hsome (by rw [ha]; rfl)
  refine ⟨Nat.find hsome, hle, b, hb, ?_⟩
  rw [List.findSome?_eq_some_iff]
  refine ⟨List.range (Nat.find hsome), Nat.find hsome,
    (List.range (n - (Nat.find hsome + 1))).map (Nat.find hsome + 1 + ·), ?_, hb, ?_⟩
  · rw [List.append_cons, ← List.range_succ, ← List.range_add]
    congr 1
    omega
  · intro i hi
    have hnone := Nat.find_min hsome (List.mem_range.mp hi)
    rwa [Bool.not_eq_true, Option.isSome_eq_false_iff, Option.isNone_iff_eq_none] at hnone

/-- A text begins with each text that it is joined of. -/
theorem afterPrefix?_append (head rest : List Char) :
    afterPrefix? head (head ++ rest) = some rest := by
  rw [afterPrefix?, if_pos (List.isPrefixOf_iff_prefix.mpr (List.prefix_append head rest)),
    List.drop_left]

/-- A placeholder that is not bound takes a value that leaves an answer for the rest, or a shorter
one. -/
theorem exists_matchFrom_unbound {name value : String} {rest : List Segment} {target : List Char}
    {bound found₀ : Bindings} (hb : bound.lookup name = none) (hne : value ≠ "")
    (h : matchFrom rest target (bound ++ [(name, value)]) = some found₀) :
    ∃ taken found, matchFrom (.placeholder name :: rest) (value.toList ++ target) bound =
        some found ∧ found.lookup name = some taken ∧
      (taken.length < value.length ∨ taken = value ∧ found = found₀) := by
  have hpos : 0 < value.toList.length := by
    rw [List.length_pos_iff, Ne, String.toList_eq_nil_iff]
    exact hne
  -- what follows when the placeholder takes one character more than `n`
  let after (n : Nat) : Option Bindings := matchFrom rest ((value.toList ++ target).drop (n + 1))
    (bound ++ [(name, String.ofList ((value.toList ++ target).take (n + 1)))])
  have hlast : after (value.toList.length - 1) = some found₀ := by
    show matchFrom _ _ _ = _
    rw [Nat.sub_add_cancel hpos, List.drop_left, List.take_left, String.ofList_toList, h]
  obtain ⟨k, hk, found, hfound, hfind⟩ := exists_findSome?_range
    (n := (value.toList ++ target).length) (by rw [List.length_append]; omega) hlast
  refine ⟨String.ofList ((value.toList ++ target).take (k + 1)), found, ?_,
    (finds_of_matchFrom hfound).lookup_taken hb, ?_⟩
  · rw [matchFrom_of_unbound hb]
    exact hfind
  · by_cases hlt : k < value.toList.length - 1
    · left
      rw [← String.length_toList, ← String.length_toList, String.toList_ofList, List.length_take,
        List.length_append]
      omega
    · right
      obtain rfl : k = value.toList.length - 1 := by omega
      rw [Nat.sub_add_cancel hpos, List.take_left, String.ofList_toList]
      exact ⟨rfl, Option.some.inj (hfound.symm.trans hlast)⟩

/-- Values that extend bindings extend them by each of their own values, too. -/
theorem extends_append {bound values : Bindings} {name value : String}
    (hbound : ∀ n v, bound.lookup n = some v → values.lookup n = some v)
    (hv : values.lookup name = some value) :
    ∀ n v, (bound ++ [(name, value)]).lookup n = some v → values.lookup n = some v := by
  intro n v hl
  rw [List.lookup_append, Option.or_eq_some_iff] at hl
  rcases hl with hl | ⟨-, hl⟩
  · exact hbound n v hl
  · rw [OrderedMap.lookup_cons_entry] at hl
    split at hl
    · next hn =>
      rw [hn, hv]
      exact hl
    · cases hl

/-- **Whatever answer extends the given bindings, matching finds one, and none that comes after
it.** -/
theorem matchFrom_preferred {segments : List Segment} {target : List Char}
    {bound values : Bindings}
    (hbound : ∀ name value, bound.lookup name = some value → values.lookup name = some value)
    (hvalues : ∀ name, .placeholder name ∈ segments →
      ∃ value, values.lookup name = some value ∧ value ≠ "")
    (hfill : filling (fun name => values.lookup name) segments = target) :
    ∃ found, matchFrom segments target bound = some found ∧
      IsPreferred found values (newNames segments bound) := by
  induction segments generalizing target bound with
  | nil =>
    obtain rfl : [] = target := hfill
    exact ⟨bound, rfl, trivial⟩
  | cons s rest ih =>
    have hrest : ∀ name, .placeholder name ∈ rest →
        ∃ value, values.lookup name = some value ∧ value ≠ "" := by
      intro name hn
      exact hvalues name (List.mem_cons_of_mem _ hn)
    cases s with
    | literal text =>
      obtain rfl : text.toList ++ filling (fun name => values.lookup name) rest = target := hfill
      rw [matchFrom, afterPrefix?_append]
      exact ih hbound hrest rfl
    | placeholder name =>
      obtain ⟨value, hv, hne⟩ := hvalues name List.mem_cons_self
      obtain rfl : value.toList ++ filling (fun name => values.lookup name) rest = target := by
        rw [← hfill, filling_placeholder_of_some hv]
      cases hb : bound.lookup name with
      | some known =>
        obtain rfl : known = value := Option.some.inj ((hbound name known hb).symm.trans hv)
        rw [matchFrom, hb, newNames_of_bound hb]
        dsimp only
        rw [afterPrefix?_append]
        exact ih hbound hrest rfl
      | none =>
        -- the answer's own value leaves an answer for the rest
        obtain ⟨found₀, hfound₀, hpref₀⟩ :=
          ih (extends_append hbound hv) hrest rfl
        obtain ⟨taken, found, hfound, hkept, htaken⟩ := exists_matchFrom_unbound hb hne hfound₀
        refine ⟨found, hfound, ?_⟩
        rw [newNames_of_unbound hb value]
        refine ⟨taken, value, hkept, hv, ?_⟩
        rcases htaken with hlt | ⟨rfl, rfl⟩
        · exact Or.inl hlt
        · exact Or.inr ⟨rfl, hpref₀⟩

/-! ## Matching -/

/-- A short text is matched by the pieces of a template in which no placeholders follow each
other. -/
theorem matches?_eq_matchFrom {t : Template} {target : String} (hadjacent : t.hasAdjacent = false)
    (hlength : target.utf8ByteSize ≤ maxTargetBytes) :
    t.matches? target = matchFrom t.segments target.toList [] := by
  have hlong : decide (maxTargetBytes < target.utf8ByteSize) = false :=
    decide_eq_false (Nat.not_lt.mpr hlength)
  rw [matches?, hlong, hadjacent, Bool.or_false, if_neg Bool.false_ne_true]

/-- A text that is matched is short. -/
theorem utf8ByteSize_le_of_matches? {t : Template} {target : String} {found : Bindings}
    (h : t.matches? target = some found) : target.utf8ByteSize ≤ maxTargetBytes := by
  by_contra hlong
  rw [matches?, decide_eq_true (Nat.lt_of_not_le hlong), Bool.true_or, if_pos rfl] at h
  cases h

/-- Whatever is found is an answer that binds each placeholder once, in the order in which they
first occur. -/
theorem isAnswer_of_matches? {t : Template} {target : String} {found : Bindings}
    (h : t.matches? target = some found) :
    found.map Prod.fst = t.placeholders ∧ t.IsAnswer target found := by
  obtain ⟨hbind, hfill⟩ := matches?_sound h
  rw [matches?] at h
  split at h
  · cases h
  · obtain ⟨new, hnew, hnames, hne⟩ := (finds_of_matchFrom h).exists_new
    rw [List.nil_append] at hnew
    subst hnew
    rw [newNames_nil] at hnames
    refine ⟨hnames, ⟨fun name hn => ?_, (t.render_eq_iff found target).mpr hfill⟩⟩
    obtain ⟨value, hvalue⟩ := Option.isSome_iff_exists.mp
      (hbind name (mem_placeholders_iff.mp hn))
    obtain ⟨before, after, hsplit, -⟩ := List.lookup_eq_some_iff.mp hvalue
    refine ⟨value, hvalue, hne (name, value) ?_⟩
    rw [hsplit]
    exact List.mem_append_right _ List.mem_cons_self

/-- Where there is an answer, one is found that is preferred to it. -/
theorem exists_matches?_of_isAnswer {t : Template} {target : String} {values : Bindings}
    (hadjacent : t.hasAdjacent = false) (hlength : target.utf8ByteSize ≤ maxTargetBytes)
    (h : t.IsAnswer target values) :
    ∃ found, t.matches? target = some found ∧ IsPreferred found values t.placeholders := by
  rw [matches?_eq_matchFrom hadjacent hlength, ← newNames_nil]
  refine matchFrom_preferred (fun name value hl => ?_) (fun name hn => ?_)
    ((t.render_eq_iff values target).mp h.renders)
  · cases hl
  · exact h.bound name (mem_placeholders_iff.mpr hn)

/-- Bindings of the same names in the same order are equal if they have the same values. -/
theorem eq_of_lookup_eq {found other : Bindings} {names : List String} (hnd : names.Nodup)
    (hf : found.map Prod.fst = names) (ho : other.map Prod.fst = names)
    (h : ∀ name ∈ names, found.lookup name = other.lookup name) : found = other := by
  induction names generalizing found other with
  | nil => rw [List.map_eq_nil_iff.mp hf, List.map_eq_nil_iff.mp ho]
  | cons name names ih =>
    obtain ⟨⟨n, x⟩, found, rfl, rfl, hrest⟩ := List.map_eq_cons_iff.mp hf
    obtain ⟨⟨n', y⟩, other, rfl, hn, hrest'⟩ := List.map_eq_cons_iff.mp ho
    obtain rfl : n' = n := hn
    rw [List.nodup_cons] at hnd
    have hfirst := h n' List.mem_cons_self
    rw [OrderedMap.lookup_cons_entry, OrderedMap.lookup_cons_entry, if_pos rfl, if_pos rfl]
      at hfirst
    have hothers : ∀ name ∈ names, found.lookup name = other.lookup name := by
      intro name hmem
      have hne : name ≠ n' := by
        rintro rfl
        exact hnd.1 hmem
      have hname := h name (List.mem_cons_of_mem _ hmem)
      rwa [OrderedMap.lookup_cons_entry, OrderedMap.lookup_cons_entry, if_neg hne, if_neg hne]
        at hname
    rw [Option.some.inj hfirst, ih hnd.2 hrest hrest' hothers]

/-- **A template matches a text exactly when it has an answer for it, and what is found is the one
answer that is preferred to all others**, bound in the order in which the placeholders first
occur. -/
theorem matches?_iff_preferred {t : Template} {target : String}
    (hadjacent : t.hasAdjacent = false) (hlength : target.utf8ByteSize ≤ maxTargetBytes) :
    ((∃ found, t.matches? target = some found) ↔ ∃ values, t.IsAnswer target values) ∧
      ∀ found, t.matches? target = some found ↔
        found.map Prod.fst = t.placeholders ∧ t.IsAnswer target found ∧
          ∀ values, t.IsAnswer target values → IsPreferred found values t.placeholders := by
  constructor
  · constructor
    · rintro ⟨found, h⟩
      exact ⟨found, (isAnswer_of_matches? h).2⟩
    · rintro ⟨values, h⟩
      obtain ⟨found, hfound, -⟩ := exists_matches?_of_isAnswer hadjacent hlength h
      exact ⟨found, hfound⟩
  · intro found
    constructor
    · intro h
      obtain ⟨hnames, hanswer⟩ := isAnswer_of_matches? h
      refine ⟨hnames, hanswer, fun values hvalues => ?_⟩
      obtain ⟨found', hfound', hpref⟩ := exists_matches?_of_isAnswer hadjacent hlength hvalues
      obtain rfl := Option.some.inj (h.symm.trans hfound')
      exact hpref
    · rintro ⟨hnames, hanswer, hpref⟩
      -- what is found is preferred to this answer, and this answer to it
      obtain ⟨found', hfound', hpref'⟩ := exists_matches?_of_isAnswer hadjacent hlength hanswer
      obtain ⟨hnames', hanswer'⟩ := isAnswer_of_matches? hfound'
      have heq := lookup_eq_of_isPreferred hpref' (hpref found' hanswer')
      rw [hfound', eq_of_lookup_eq (nodup_distinct _) hnames' hnames heq]

/-- A placeholder that occurs again behind a gap, where an empty value has been fixed: of the two
answers the one with the shorter first value is found. -/
theorem matches?_iff_preferred_around_gap :
    let t := (ofText "$\x7ba\x7d$\x7bgap\x7d$\x7bb\x7d-$\x7ba\x7d").substitute "gap" ""
    t.hasAdjacent = false ∧ "1-1-1-1-1".utf8ByteSize ≤ maxTargetBytes ∧
      t.matches? "1-1-1-1-1" = some [("a", "1"), ("b", "-1-1-1")] ∧
      t.IsAnswer "1-1-1-1-1" [("a", "1"), ("b", "-1-1-1")] ∧
      ∀ values, t.IsAnswer "1-1-1-1-1" values →
        IsPreferred [("a", "1"), ("b", "-1-1-1")] values t.placeholders := by
  have hadjacent : ((ofText "$\x7ba\x7d$\x7bgap\x7d$\x7bb\x7d-$\x7ba\x7d").substitute
      "gap" "").hasAdjacent = false := by decide +kernel
  have hfound : ((ofText "$\x7ba\x7d$\x7bgap\x7d$\x7bb\x7d-$\x7ba\x7d").substitute
      "gap" "").matches? "1-1-1-1-1" = some [("a", "1"), ("b", "-1-1-1")] := by decide +kernel
  obtain ⟨-, hpreferred⟩ := matches?_iff_preferred hadjacent
    (show "1-1-1-1-1".utf8ByteSize ≤ maxTargetBytes by decide)
  obtain ⟨-, hanswer, hall⟩ := (hpreferred _).mp hfound
  exact ⟨hadjacent, by decide, hfound, hanswer, hall⟩

end MavenUpgrade.Template

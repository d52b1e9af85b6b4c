import Mathlib
import MavenUpgrade.Proofs.Manifest.Environment
import MavenUpgrade.Suggest.Arbitration

/-!
# The template of a member

In the template of a member only the placeholders of declared properties are open; all others have
their values already. Filling it is therefore filling the version text, with the given values for
these properties and the present ones for all other names (`filling_openPieces`).
-/

namespace MavenUpgrade

namespace Template

/-- A piece once some placeholders have fixed values. -/
def fixPiece (names : List String) (value : String → String) : Segment → Segment
  | .literal text => .literal text
  | .placeholder name => if name ∈ names then .literal (value name) else .placeholder name

/-- Fixing the values of placeholders one after the other fixes each piece by itself. -/
theorem segments_foldl_substitute (names : List String) (value : String → String) (t : Template) :
    (names.foldl (fun t name => t.substitute name (value name)) t).segments =
      t.segments.map (fixPiece names value) := by
  induction names generalizing t with
  | nil =>
    have hid : fixPiece [] value = id := by
      funext s
      cases s <;> rfl
    rw [List.foldl_nil, hid, List.map_id]
  | cons name names ih =>
    rw [List.foldl_cons, ih]
    show (t.segments.map fun s => if s = .placeholder name then .literal (value name) else s).map
      (fixPiece names value) = _
    rw [List.map_map]
    refine List.map_congr_left fun s _ => ?_
    cases s with
    | literal text => rfl
    | placeholder n =>
      by_cases hn : n = name
      · subst hn
        simp [fixPiece]
      · simp [fixPiece, hn]

/-- Filling pieces with fixed values is filling the pieces with these values among others. -/
theorem filling_map_fixPiece (names : List String) (value : String → String)
    (v : String → Option String) (segments : List Segment) :
    filling v (segments.map (fixPiece names value)) =
      filling (fun name => if name ∈ names then some (value name) else v name) segments := by
  rw [filling, List.flatMap_map]
  refine List.flatMap_congr fun s hs => ?_
  cases s with
  | literal text => rfl
  | placeholder name =>
    rw [fixPiece]
    by_cases hn : name ∈ names
    · rw [if_pos hn]
      simp [Segment.fill, hn]
    · rw [if_neg hn]
      simp [Segment.fill, hn]

/-- Filling a template with a fixed value is filling the template with this value among others. -/
theorem filling_substitute (t : Template) (name value : String) (v : String → Option String) :
    filling v (t.substitute name value).segments =
      filling (fun n => if n = name then some value else v n) t.segments := by
  have hfixed := segments_foldl_substitute [name] (fun _ => value) t
  rw [List.foldl_cons, List.foldl_nil] at hfixed
  rw [hfixed, filling_map_fixPiece]
  simp only [List.mem_singleton]

/-- Fixing a placeholder that does not occur changes nothing. -/
theorem substitute_of_not_mem {t : Template} {name : String} (h : name ∉ t.placeholders)
    (value : String) : t.substitute name value = t := by
  have hkeep : t.segments.map (fun s => if s = .placeholder name then .literal value else s) =
      t.segments := by
    conv_rhs => rw [← List.map_id t.segments]
    refine List.map_congr_left fun s hs => ?_
    rw [if_neg]
    · rfl
    · rintro rfl
      exact h (mem_placeholders_iff.mpr hs)
  rw [substitute, hkeep]

end Template

namespace Manifest

/-- The names of the declared properties that a requirement refers to. -/
def openNames (m : Manifest) (r : Requirement) : List String :=
  (m.requirementRefs r).map (·.name)

/-- The placeholders of a version text that are fixed in the template of the member. -/
def fixedNames (m : Manifest) (r : Requirement) : List String :=
  (Template.ofText r.declared).placeholders.filter fun name =>
    (m.requirementRefs r).all (·.name ≠ name)

theorem mem_fixedNames_iff (m : Manifest) (r : Requirement) (name : String) :
    name ∈ m.fixedNames r ↔
      .placeholder name ∈ (Template.ofText r.declared).segments ∧ name ∉ m.openNames r := by
  rw [fixedNames, List.mem_filter, Template.mem_placeholders_iff, openNames, List.mem_map]
  refine and_congr_right fun _ => ?_
  simp

/-- A name that a requirement refers to stands in its version text. -/
theorem placeholder_mem_of_mem_openNames {m : Manifest} {r : Requirement} {name : String}
    (h : name ∈ m.openNames r) : .placeholder name ∈ (Template.ofText r.declared).segments := by
  obtain ⟨p, hp, rfl⟩ := List.mem_map.mp h
  rw [← Template.mem_names_iff]
  exact ((Environment.mem_refs_iff _ _ _ p).mp hp).1

/-- The pieces of a version text in which only declared properties are open. -/
def openPieces (m : Manifest) (r : Requirement) : List Segment :=
  (Template.ofText r.declared).segments.map (Template.fixPiece (m.fixedNames r) fun name =>
    m.resolve r.origin.scope (Placeholder.text name))

/-- The template of a member is made of these pieces. -/
theorem segments_of_memberTemplate? {m : Manifest} {r : Requirement} {t : Template}
    (h : m.memberTemplate? r = some t) : t.segments = m.openPieces r := by
  rw [memberTemplate?] at h
  split at h
  · cases h
  · obtain rfl := Option.some.inj h
    exact Template.segments_foldl_substitute (m.fixedNames r) _ _

/-- **Filling the open pieces is filling the version text**, with the present values in the place
of the names that are not open. -/
theorem filling_openPieces (m : Manifest) (r : Requirement) (v : String → Option String) :
    Template.filling v (m.openPieces r) =
      Template.filling (fun name => if name ∈ m.openNames r then v name
        else some (m.resolve r.origin.scope (Placeholder.text name)))
        (Template.ofText r.declared).segments := by
  rw [openPieces, Template.filling_map_fixPiece]
  refine Template.filling_congr fun name hn => ?_
  by_cases ho : name ∈ m.openNames r
  · rw [if_neg fun hf => ((m.mem_fixedNames_iff r name).mp hf).2 ho, if_pos ho]
  · rw [if_pos ((m.mem_fixedNames_iff r name).mpr ⟨hn, ho⟩), if_neg ho]

/-- The open placeholders are those of the properties that the requirement refers to. -/
theorem placeholder_mem_openPieces_iff (m : Manifest) (r : Requirement) (name : String) :
    .placeholder name ∈ m.openPieces r ↔ name ∈ m.openNames r := by
  rw [openPieces, List.mem_map]
  constructor
  · rintro ⟨s, hs, he⟩
    cases s with
    | literal text => cases he
    | placeholder n =>
      rw [Template.fixPiece] at he
      split at he
      · cases he
      · next hf =>
        obtain rfl := Segment.placeholder.inj he
        by_contra ho
        exact hf ((m.mem_fixedNames_iff r n).mpr ⟨hs, ho⟩)
  · intro ho
    refine ⟨.placeholder name, placeholder_mem_of_mem_openNames ho, ?_⟩
    rw [Template.fixPiece, if_neg fun hf => ((m.mem_fixedNames_iff r name).mp hf).2 ho]

/-- A requirement is a member with its template and the text that it should come to. -/
theorem voter?_eq_some_iff {m : Manifest} {r : Requirement} {j : Judgement} {v : Voter} :
    m.voter? r j = some v ↔
      m.memberTemplate? r = some v.template ∧ j.desired? = some v.desired := by
  unfold voter?
  constructor
  · intro h
    obtain ⟨t, ht, h⟩ := Option.bind_eq_some_iff.mp h
    obtain ⟨desired, hdesired, h⟩ := Option.bind_eq_some_iff.mp h
    obtain rfl := Option.some.inj h
    exact ⟨ht, hdesired⟩
  · rintro ⟨ht, hdesired⟩
    rw [ht, hdesired]
    rfl

end Manifest

end MavenUpgrade

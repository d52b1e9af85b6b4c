import Mathlib
import MavenUpgrade.Template.Basic

/-!
# The pieces of a text

A text is cut into pieces that give it back when nothing is filled in (`filling_segmentsOf`). The
names of its placeholders are names indeed (`isName_of_mem_segmentsOf`), so a placeholder alone is
a single piece, and a text that opens no placeholder is literal.
-/

namespace MavenUpgrade

namespace Placeholder

/-! ## Names -/

/-- What may stand between the marks of a placeholder. -/
def IsName (cs : List Char) : Prop :=
  cs ≠ [] ∧ ∀ c ∈ cs, isNameChar c = true

/-- A placeholder is found at the start of a text that begins with it. -/
theorem atStart?_enclose {name : List Char} (h : IsName name) (rest : List Char) :
    atStart? (enclose name ++ rest) = some (name, rest) := by
  have hstop : isNameChar '}' = false := by decide
  have he : enclose name ++ rest = '$' :: '{' :: (name ++ '}' :: rest) := by
    simp [enclose, opening, closing]
  have htake : (name ++ '}' :: rest).takeWhile isNameChar = name := by
    rw [List.takeWhile_append_of_pos h.2, List.takeWhile_cons_of_neg (by rw [hstop]; decide),
      List.append_nil]
  have hdrop : (name ++ '}' :: rest).dropWhile isNameChar = '}' :: rest := by
    rw [List.dropWhile_append_of_pos h.2, List.dropWhile_cons_of_neg (by rw [hstop]; decide)]
  rw [he, atStart?, hdrop, htake]
  exact if_neg (by rw [List.isEmpty_iff]; exact h.1)

/-- What is found between the marks of a placeholder is a name. -/
theorem isName_of_atStart? {cs name rest : List Char} (h : atStart? cs = some (name, rest)) :
    IsName name := by
  unfold atStart? at h
  split at h
  · next cs =>
    split at h
    · split at h
      · cases h
      · next hn =>
        obtain ⟨rfl, rfl⟩ := Prod.mk.inj (Option.some.inj h)
        refine ⟨fun h' => hn (List.isEmpty_iff.mpr h'), fun c hc => ?_⟩
        exact List.mem_takeWhile_imp hc
    · cases h
  · cases h

/-- A placeholder that a text begins with is the first one. -/
theorem first?_of_atStart? {cs name rest : List Char} (h : atStart? cs = some (name, rest)) :
    first? cs = some ([], name, rest) := by
  cases cs with
  | nil => cases h
  | cons c cs => rw [first?, h]

/-- What is found between the marks of the first placeholder is a name. -/
theorem isName_of_first? {cs before name rest : List Char}
    (h : first? cs = some (before, name, rest)) : IsName name := by
  induction cs generalizing before with
  | nil => cases h
  | cons c cs ih =>
    rw [first?] at h
    split at h
    · next hs =>
      obtain ⟨-, h'⟩ := Prod.mk.inj (Option.some.inj h)
      obtain ⟨rfl, rfl⟩ := Prod.mk.inj h'
      exact isName_of_atStart? hs
    · obtain ⟨⟨b, n, r⟩, hr, he⟩ := Option.map_eq_some_iff.mp h
      obtain ⟨rfl, rfl, rfl⟩ : c :: b = before ∧ n = name ∧ r = rest := by simpa using he
      exact ih hr

/-- A text that opens no placeholder does not begin with one. -/
theorem atStart?_of_not_opensIn {cs : List Char} (h : opensIn cs = false) :
    atStart? cs = none := by
  cases hs : atStart? cs with
  | none => rfl
  | some found =>
    obtain ⟨name, rest⟩ := found
    rw [eq_of_atStart? hs] at h
    cases h

/-- A text that opens no placeholder has none. -/
theorem first?_of_not_opensIn {cs : List Char} (h : opensIn cs = false) : first? cs = none := by
  induction cs with
  | nil => rfl
  | cons c cs ih =>
    have hcs : opensIn cs = false := by
      unfold opensIn at h
      split at h
      · cases h
      · next heq => rw [← (List.cons.inj heq).2] at h; exact h
      · next heq => cases heq
    rw [first?, atStart?_of_not_opensIn h, ih hcs, Option.map_none]

/-! ## Openings -/

theorem opensIn_cons (c : Char) (cs : List Char) :
    opensIn (c :: cs) = true ↔ opening <+: c :: cs ∨ opensIn cs = true := by
  constructor
  · intro h
    unfold opensIn at h
    split at h
    · next rest heq =>
      rw [heq]
      exact Or.inl ⟨rest, rfl⟩
    · next heq =>
      rw [(List.cons.inj heq).2]
      exact Or.inr h
    · cases h
  · rintro (⟨rest, hrest⟩ | h)
    · rw [← hrest]
      rfl
    · unfold opensIn
      split
      · rfl
      · next heq => rwa [← (List.cons.inj heq).2]
      · next heq => cases heq

/-- A text opens a placeholder where the opening is a part of it. -/
theorem opensIn_iff (cs : List Char) : opensIn cs = true ↔ opening <:+: cs := by
  induction cs with
  | nil => exact iff_of_false Bool.false_ne_true (by decide)
  | cons c cs ih => rw [opensIn_cons, ih, List.infix_cons_iff]

/-- A part of a text opens no placeholder if the text opens none. -/
theorem not_mentioned_of_infix {part text : String} (h : part.toList <:+: text.toList)
    (htext : mentioned text = false) : mentioned part = false := by
  rw [mentioned, Bool.eq_false_iff, ne_eq, opensIn_iff] at htext ⊢
  exact fun hopens => htext (hopens.trans h)

end Placeholder

open Placeholder (IsName)

namespace Template

/-! ## Pieces -/

/-- The characters that pieces make up under values for their placeholders. -/
def filling (value? : String → Option String) (segments : List Segment) : List Char :=
  segments.flatMap fun s => (s.fill value?).toList

/-- What a piece is filled with is a part of the whole. -/
theorem infix_filling_of_mem (value? : String → Option String) {segments : List Segment}
    {s : Segment} (h : s ∈ segments) : (s.fill value?).toList <:+: filling value? segments := by
  rw [filling, List.flatMap_def]
  exact List.infix_of_mem_flatten (List.mem_map_of_mem h)

/-- A filling only depends on the values of its own placeholders. -/
theorem filling_congr {segments : List Segment} {v w : String → Option String}
    (h : ∀ name, .placeholder name ∈ segments → v name = w name) :
    filling v segments = filling w segments := by
  refine List.flatMap_congr fun s hs => ?_
  cases s with
  | literal text => rfl
  | placeholder name =>
    show ((v name).getD _).toList = ((w name).getD _).toList
    rw [h name hs]

/-- Pieces that name a single placeholder are filled with its value only. -/
theorem filling_of_only {segments : List Segment} {name value : String}
    {value? : String → Option String} (honly : ∀ n, .placeholder n ∈ segments → n = name)
    (hv : value? name = some value) :
    filling value? segments = filling (fun _ => some value) segments := by
  refine filling_congr fun n hn => ?_
  rw [honly n hn, hv]

/-- A literal piece gives its text back. -/
theorem filling_literalPiece (value? : String → Option String) (cs : List Char) :
    filling value? (literalPiece cs) = cs := by
  rw [literalPiece]
  split
  · next h => rw [List.isEmpty_iff.mp h]; rfl
  · simp [filling, Segment.fill]

/-- A placeholder that is not filled in stays as it is. -/
theorem filling_placeholder_cons (name : String) (segments : List Segment) :
    filling (fun _ => none) (.placeholder name :: segments) =
      Placeholder.enclose name.toList ++ filling (fun _ => none) segments := by
  show (Placeholder.text name).toList ++ filling _ segments = _
  rw [Placeholder.text, String.toList_ofList]

/-- The pieces of a text give it back when no placeholder is filled in. -/
theorem filling_segmentsOf (cs : List Char) : filling (fun _ => none) (segmentsOf cs) = cs := by
  fun_induction segmentsOf cs with
  | case1 cs before name rest h ih =>
    rw [filling, List.flatMap_append]
    show filling _ (literalPiece before) ++ filling _ (_ :: segmentsOf rest) = cs
    rw [filling_literalPiece, filling_placeholder_cons, ih, String.toList_ofList,
      Placeholder.eq_of_first? h, List.append_assoc]
  | case2 cs h => exact filling_literalPiece _ cs

/-- The placeholders among the pieces of a text have names. -/
theorem isName_of_mem_segmentsOf {cs : List Char} {name : String}
    (h : Segment.placeholder name ∈ segmentsOf cs) : IsName name.toList := by
  have hpiece (cs : List Char) : Segment.placeholder name ∉ literalPiece cs := by
    rw [literalPiece]
    split <;> simp
  fun_induction segmentsOf cs with
  | case1 cs before n rest hf ih =>
    rcases List.mem_append.mp h with h | h
    · exact absurd h (hpiece before)
    · rcases List.mem_cons.mp h with h | h
      · obtain rfl := Segment.placeholder.inj h
        rw [String.toList_ofList]
        exact Placeholder.isName_of_first? hf
      · exact ih h
  | case2 cs hf => exact absurd h (hpiece cs)

theorem segmentsOf_nil : segmentsOf [] = [] := by
  rw [segmentsOf]
  rfl

/-- A placeholder that a text begins with is its first piece. -/
theorem segmentsOf_enclose_append {name : List Char} (h : IsName name) (rest : List Char) :
    segmentsOf (Placeholder.enclose name ++ rest) =
      .placeholder (String.ofList name) :: segmentsOf rest := by
  rw [segmentsOf, Placeholder.first?_of_atStart? (Placeholder.atStart?_enclose h rest)]
  rfl

/-- A placeholder alone is a single piece. -/
theorem segmentsOf_enclose {name : List Char} (h : IsName name) :
    segmentsOf (Placeholder.enclose name) = [.placeholder (String.ofList name)] := by
  have hpieces := segmentsOf_enclose_append h []
  rwa [List.append_nil, segmentsOf_nil] at hpieces

/-- A text that opens no placeholder is literal. -/
theorem segmentsOf_of_not_opensIn {cs : List Char} (h : Placeholder.opensIn cs = false) :
    segmentsOf cs = literalPiece cs := by
  rw [segmentsOf, Placeholder.first?_of_not_opensIn h]

/-- The occurrences of placeholders in a text are those among its pieces. -/
theorem occurrences_eq (cs : List Char) :
    Placeholder.occurrences cs = (segmentsOf cs).filterMap Segment.name? := by
  have hpiece (cs : List Char) : (literalPiece cs).filterMap Segment.name? = [] := by
    rw [literalPiece]
    split <;> rfl
  fun_induction segmentsOf cs with
  | case1 cs before name rest h ih =>
    rw [Placeholder.occurrences, h, List.filterMap_append, hpiece, List.nil_append]
    show String.ofList name :: Placeholder.occurrences rest =
      String.ofList name :: (segmentsOf rest).filterMap Segment.name?
    rw [ih]
  | case2 cs h => rw [Placeholder.occurrences, h, hpiece]

/-- A name is among those of pieces exactly when its placeholder is among the pieces. -/
theorem mem_filterMap_name?_iff {segments : List Segment} {name : String} :
    name ∈ segments.filterMap Segment.name? ↔ .placeholder name ∈ segments := by
  rw [List.mem_filterMap]
  constructor
  · rintro ⟨s, hs, hn⟩
    cases s with
    | literal text => cases hn
    | placeholder n =>
      obtain rfl := Option.some.inj hn
      exact hs
  · intro h
    exact ⟨_, h, rfl⟩

/-- A name is among those of a template exactly when its placeholder is among the pieces. -/
theorem mem_placeholders_iff {t : Template} {name : String} :
    name ∈ t.placeholders ↔ .placeholder name ∈ t.segments := by
  rw [placeholders, mem_distinct, mem_filterMap_name?_iff]

/-- A name is among those of a text exactly when its placeholder is among the pieces. -/
theorem mem_names_iff (text name : String) :
    name ∈ Placeholder.names text ↔ .placeholder name ∈ (ofText text).segments := by
  rw [Placeholder.names, mem_distinct, occurrences_eq, mem_filterMap_name?_iff]
  rfl

/-- A text that opens no placeholder has no names. -/
theorem names_of_not_mentioned {text : String} (h : Placeholder.mentioned text = false) :
    Placeholder.names text = [] := by
  have hfirst : Placeholder.first? text.toList = none := Placeholder.first?_of_not_opensIn h
  rw [Placeholder.names, Placeholder.occurrences, hfirst]
  rfl

end Template

end MavenUpgrade

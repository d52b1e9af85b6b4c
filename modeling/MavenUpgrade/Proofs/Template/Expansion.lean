import Mathlib
import MavenUpgrade.Proofs.Template.Resolution

/-!
# Expansions

In the expansion of a text each placeholder is replaced by the expansion of its value, however deep
the values lie in each other (`Expands`). A text has at most one expansion (`Expands.unique`).

Interpolation, which stops at a depth and at names that are being replaced, gives the expansion
where no chain of references ends at a missing value, comes back to a name or is too long
(`expands_of_isGrounded`). Wherever one does, the opening of a placeholder is left
(`isGrounded_of_expand`).
-/

namespace MavenUpgrade

namespace Placeholder

/-- A text with a first placeholder has its name. -/
theorem mem_names_of_first? {text : String} {before name rest : List Char}
    (h : first? text.toList = some (before, name, rest)) : String.ofList name ∈ names text := by
  rw [names, mem_distinct, occurrences, h]
  exact List.mem_cons_self

theorem mentioned_text (name : String) : mentioned (text name) = true := by
  rw [mentioned, text, String.toList_ofList, opensIn_iff]
  exact ⟨[], name.toList ++ closing, by rw [enclose, List.nil_append, List.append_assoc]⟩

end Placeholder

namespace Interpolation

variable {value? : String → Option String}

/-! ## Expansions -/

/-- What a text becomes when each placeholder, from the left, is replaced by the expansion of its
value. -/
inductive Expands (value? : String → Option String) : List Char → List Char → Prop where
  | plain {cs : List Char} (h : Placeholder.first? cs = none) : Expands value? cs cs
  | replace {cs before name rest inner out : List Char} {value : String}
      (h : Placeholder.first? cs = some (before, name, rest))
      (hv : value? (String.ofList name) = some value) (hi : Expands value? value.toList inner)
      (hr : Expands value? rest out) : Expands value? cs (before ++ inner ++ out)

/-- A text has at most one expansion. -/
theorem Expands.unique {cs out out' : List Char} (h : Expands value? cs out)
    (h' : Expands value? cs out') : out = out' := by
  induction h generalizing out' with
  | plain hnone =>
    cases h' with
    | plain => rfl
    | replace hfirst => cases hnone.symm.trans hfirst
  | replace hfirst hv hi hr ihi ihr =>
    cases h' with
    | plain hnone => cases hfirst.symm.trans hnone
    | replace hfirst' hv' hi' hr' =>
      cases hfirst.symm.trans hfirst'
      cases hv.symm.trans hv'
      rw [ihi hi', ihr hr']

/-- Pieces filled with the expansions of the values of their placeholders are the expansion. -/
theorem expands_filling {filled? : String → Option String} {cs : List Char}
    (h : ∀ name, .placeholder name ∈ Template.segmentsOf cs → ∃ value inner,
      value? name = some value ∧ filled? name = some inner ∧
        Expands value? value.toList inner.toList) :
    Expands value? cs (Template.filling filled? (Template.segmentsOf cs)) := by
  fun_induction Template.segmentsOf cs with
  | case1 cs before name rest hfirst ih =>
    obtain ⟨value, inner, hv, hfilled, hinner⟩ :=
      h (String.ofList name) (List.mem_append_right _ List.mem_cons_self)
    have hrest := ih fun n hn =>
      h n (List.mem_append_right _ (List.mem_cons_of_mem _ hn))
    have hfilling : Template.filling filled?
        (Template.literalPiece before ++ .placeholder (String.ofList name) ::
          Template.segmentsOf rest) =
        before ++ inner.toList ++ Template.filling filled? (Template.segmentsOf rest) := by
      rw [Template.filling, List.flatMap_append, List.flatMap_cons, Segment.fill, hfilled,
        Option.getD_some, List.append_assoc]
      congr 1
      exact Template.filling_literalPiece filled? before
    rw [hfilling]
    exact .replace hfirst hv hinner hrest
  | case2 cs hnone =>
    rw [Template.filling_literalPiece]
    exact .plain hnone

/-! ## Chains of references -/

/-- Names of which the first stands in a text and each other one in the value of the one before. -/
inductive IsChain (value? : String → Option String) : String → List String → Prop where
  | single {text name : String} (h : name ∈ Placeholder.names text) : IsChain value? text [name]
  | cons {text name value : String} {names : List String} (h : name ∈ Placeholder.names text)
      (hv : value? name = some value) (hr : IsChain value? value names) :
      IsChain value? text (name :: names)

/-- No chain of references from a text meets a name without a value, comes back to a name, or has
more names than the depth. -/
structure IsGrounded (value? : String → Option String) (depth : Nat) (text : String) : Prop where
  defined : ∀ names, IsChain value? text names → ∀ name ∈ names, (value? name).isSome = true
  acyclic : ∀ names, IsChain value? text names → names.Nodup
  length_le : ∀ names, IsChain value? text names → names.length ≤ depth

/-- From the value of a name that stands in the text, the chains are shorter by one name. -/
theorem IsGrounded.of_value {depth : Nat} {text name value : String}
    (h : IsGrounded value? (depth + 1) text) (hn : name ∈ Placeholder.names text)
    (hv : value? name = some value) : IsGrounded value? depth value where
  defined _ hc inner hi := h.defined _ (.cons hn hv hc) inner (List.mem_cons_of_mem name hi)
  acyclic _ hc := (List.nodup_cons.mp (h.acyclic _ (.cons hn hv hc))).2
  length_le _ hc := Nat.le_of_succ_le_succ (h.length_le _ (.cons hn hv hc))

/-! ## Interpolation -/

/-- **A grounded text is interpolated to its expansion**, if its chains avoid the names that are
being replaced. -/
theorem expands_of_isGrounded {depth : Nat} {active : List String} {text : String}
    (h : IsGrounded value? depth text)
    (hactive : ∀ names, IsChain value? text names → ∀ name ∈ names, name ∉ active) :
    Expands value? text.toList (expand value? depth active text).toList := by
  induction depth generalizing active text with
  | zero =>
    -- a name in the text would be a chain that is too long
    cases hfirst : Placeholder.first? text.toList with
    | none => exact .plain hfirst
    | some found =>
      have hn := Placeholder.mem_names_of_first? hfirst
      exact absurd (h.length_le _ (.single hn)) (by simp)
  | succ depth ih =>
    rw [toList_expand]
    refine expands_filling fun name hname => ?_
    have hn := (Template.mem_names_iff text name).mpr hname
    obtain ⟨value, hv⟩ :=
      Option.isSome_iff_exists.mp (h.defined _ (.single hn) name List.mem_cons_self)
    have hfresh : name ∉ active := hactive _ (.single hn) name List.mem_cons_self
    have hinner : ∀ names, IsChain value? value names →
        ∀ inner ∈ names, inner ∉ name :: active := by
      intro names hc inner hi
      have hchain := IsChain.cons hn hv hc
      rw [List.mem_cons, not_or]
      refine ⟨?_, hactive _ hchain inner (List.mem_cons_of_mem name hi)⟩
      rintro rfl
      exact (List.nodup_cons.mp (h.acyclic _ hchain)).1 hi
    refine ⟨value, expand value? depth (name :: active) value, hv, ?_, ih (h.of_value hn hv) hinner⟩
    rw [if_neg hfresh, hv, Option.map_some]

/-- If no opening of a placeholder is left, a name in the text has a value in which none is left
either. -/
theorem exists_of_expand {depth : Nat} {active : List String} {text name : String}
    (h : Placeholder.mentioned (expand value? depth active text) = false)
    (hn : name ∈ Placeholder.names text) :
    ∃ rest value, depth = rest + 1 ∧ name ∉ active ∧ value? name = some value ∧
      Placeholder.mentioned (expand value? rest (name :: active) value) = false := by
  cases depth with
  | zero =>
    have htext : Placeholder.mentioned text = false := h
    rw [Template.names_of_not_mentioned htext] at hn
    cases hn
  | succ depth =>
    have hpiece := Template.infix_filling_of_mem (fun name => if name ∈ active then none
      else (value? name).map (expand value? depth (name :: active)))
      ((Template.mem_names_iff text name).mp hn)
    rw [← toList_expand] at hpiece
    have hfree := Placeholder.not_mentioned_of_infix hpiece h
    rw [Segment.fill] at hfree
    have htext := Placeholder.mentioned_text name
    split_ifs at hfree with hmem
    · rw [Option.getD_none, htext] at hfree
      cases hfree
    · cases hv : value? name with
      | none =>
        rw [hv, Option.map_none, Option.getD_none, htext] at hfree
        cases hfree
      | some value =>
        rw [hv, Option.map_some, Option.getD_some] at hfree
        exact ⟨depth, value, rfl, hmem, rfl, hfree⟩

/-- If no opening of a placeholder is left, a chain is not too long, does not come back to a name,
and has only names with values that are not being replaced. -/
theorem chain_of_expand {depth : Nat} {active names : List String} {text : String}
    (h : Placeholder.mentioned (expand value? depth active text) = false)
    (hc : IsChain value? text names) :
    names.length ≤ depth ∧ names.Nodup ∧
      ∀ name ∈ names, name ∉ active ∧ (value? name).isSome = true := by
  induction hc generalizing depth active with
  | @single text name hn =>
    obtain ⟨rest, value, rfl, hfresh, hv, -⟩ := exists_of_expand h hn
    refine ⟨Nat.succ_le_succ (Nat.zero_le rest), List.nodup_singleton name, ?_⟩
    rw [List.forall_mem_singleton, hv]
    exact ⟨hfresh, rfl⟩
  | @cons text name value names hn hv hr ih =>
    obtain ⟨rest, value', rfl, hfresh, hv', hvalue⟩ := exists_of_expand h hn
    obtain rfl := Option.some.inj (hv.symm.trans hv')
    obtain ⟨hlength, hnodup, hnames⟩ := ih hvalue
    refine ⟨Nat.succ_le_succ hlength, List.nodup_cons.mpr ⟨fun hmem => ?_, hnodup⟩, ?_⟩
    · exact (hnames name hmem).1 List.mem_cons_self
    · rw [List.forall_mem_cons, hv]
      exact ⟨⟨hfresh, rfl⟩, fun inner hi =>
        ⟨fun hmem => (hnames inner hi).1 (List.mem_cons_of_mem name hmem), (hnames inner hi).2⟩⟩

/-- **If no opening of a placeholder is left, the text is grounded.** -/
theorem isGrounded_of_expand {depth : Nat} {active : List String} {text : String}
    (h : Placeholder.mentioned (expand value? depth active text) = false) :
    IsGrounded value? depth text where
  defined _ hc name hn := ((chain_of_expand h hc).2.2 name hn).2
  acyclic _ hc := (chain_of_expand h hc).2.1
  length_le _ hc := (chain_of_expand h hc).1

end Interpolation

end MavenUpgrade

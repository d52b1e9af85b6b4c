import Mathlib
import MavenUpgrade.Proofs.Template.Parsing
import MavenUpgrade.Template.Interpolation

/-!
# Interpolation piece by piece

The value of a text is made of its literal pieces and of the values of its placeholders, each taken
by itself (`toList_interpolate`). A text that opens no placeholder is its own value. Only the names
that a text reaches, by itself or through values, bear on its value (`interpolate_congr`).
-/

namespace MavenUpgrade.Interpolation

/-- A text is filled with the values of its placeholders to the depth that is left. -/
theorem toList_expand (value? : String → Option String) (depth : Nat) (active : List String)
    (text : String) :
    (expand value? (depth + 1) active text).toList =
      Template.filling (fun name => if name ∈ active then none
        else (value? name).map (expand value? depth (name :: active)))
        (Template.ofText text).segments := by
  rw [expand, String.toList_join, List.flatMap_map]
  rfl

/-- The value of a placeholder by itself, when its name has a value. -/
theorem interpolate_placeholder (value? : String → Option String) {name : String}
    (h : Placeholder.IsName name.toList) :
    interpolate value? (Placeholder.text name) =
      ((value? name).map (expand value? (maxDepth - 1) [name])).getD (Placeholder.text name) := by
  have hs : (Template.ofText (Placeholder.text name)).segments = [.placeholder name] := by
    rw [Template.ofText, Placeholder.text, String.toList_ofList, Template.segmentsOf_enclose h,
      String.ofList_toList]
  show String.join ((Template.ofText (Placeholder.text name)).segments.map _) = _
  rw [hs]
  show "" ++ _ = _
  rw [String.empty_append]
  rfl

/-- The value of a text is made of the values of its pieces. -/
theorem toList_interpolate (value? : String → Option String) (text : String) :
    (interpolate value? text).toList =
      Template.filling (fun name => some (interpolate value? (Placeholder.text name)))
        (Template.ofText text).segments := by
  rw [interpolate, maxDepth, toList_expand]
  refine List.flatMap_congr fun s hs => ?_
  cases s with
  | literal text => rfl
  | placeholder name =>
    show _ = (interpolate value? (Placeholder.text name)).toList
    rw [interpolate_placeholder value? (Template.isName_of_mem_segmentsOf hs)]
    rfl

/-- A text that opens no placeholder is its own value. -/
theorem interpolate_of_not_mentioned (value? : String → Option String) {text : String}
    (h : Placeholder.mentioned text = false) : interpolate value? text = text := by
  rw [← String.toList_inj, toList_interpolate, Template.ofText,
    Template.segmentsOf_of_not_opensIn h, Template.filling_literalPiece]

/-- At any depth, too, a text that opens no placeholder is its own value. -/
theorem expand_of_not_mentioned (value? : String → Option String) (depth : Nat)
    (active : List String) {text : String} (h : Placeholder.mentioned text = false) :
    expand value? depth active text = text := by
  cases depth with
  | zero => rfl
  | succ depth =>
    have hs : (Template.ofText text).segments = Template.literalPiece text.toList :=
      Template.segmentsOf_of_not_opensIn h
    rw [← String.toList_inj, toList_expand, hs, Template.filling_literalPiece]

/-- A text that names a single placeholder is filled with its value, if this opens no other. -/
theorem toList_interpolate_of_only {value? : String → Option String} {text name value : String}
    (honly : ∀ n ∈ Placeholder.names text, n = name) (hv : value? name = some value)
    (hvalue : Placeholder.mentioned value = false) :
    (interpolate value? text).toList =
      Template.filling (fun _ => some value) (Template.ofText text).segments := by
  rw [toList_interpolate]
  refine Template.filling_congr fun n hn => ?_
  obtain rfl := honly n ((Template.mem_names_iff text n).mpr hn)
  rw [interpolate_placeholder _ (Template.isName_of_mem_segmentsOf hn), hv, Option.map_some,
    expand_of_not_mentioned _ _ _ hvalue, Option.getD_some]

/-! ## What a value depends on -/

/-- A text reaches the names of its placeholders, and those that their values reach. -/
inductive Reaches (value? : String → Option String) : String → String → Prop where
  | named {text name : String} (h : name ∈ Placeholder.names text) : Reaches value? text name
  | through {text name value inner : String} (h : name ∈ Placeholder.names text)
      (hv : value? name = some value) (hi : Reaches value? value inner) : Reaches value? text inner

/-- A text that opens no placeholder reaches no name. -/
theorem not_reaches_of_not_mentioned (value? : String → Option String) {text name : String}
    (h : Placeholder.mentioned text = false) : ¬ Reaches value? text name := by
  have hnames := Template.names_of_not_mentioned h
  intro hreach
  cases hreach with
  | named hn =>
    rw [hnames] at hn
    cases hn
  | through hn hv hi =>
    rw [hnames] at hn
    cases hn

/-- Values that agree on the names that a text reaches give it the same value. -/
theorem expand_congr {value? other? : String → Option String} (depth : Nat)
    (active : List String) {text : String}
    (h : ∀ name, Reaches value? text name → value? name = other? name) :
    expand value? depth active text = expand other? depth active text := by
  induction depth generalizing active text with
  | zero => rfl
  | succ depth ih =>
    rw [← String.toList_inj, toList_expand, toList_expand]
    refine Template.filling_congr fun name hs => ?_
    have hn := (Template.mem_names_iff text name).mpr hs
    rw [← h name (.named hn)]
    split
    · rfl
    · cases hv : value? name with
      | none => rfl
      | some value =>
        rw [Option.map_some, Option.map_some,
          ih (name :: active) fun inner hi => h inner (.through hn hv hi)]

/-- Values that agree on the names that a text reaches give it the same value. -/
theorem interpolate_congr {value? other? : String → Option String} {text : String}
    (h : ∀ name, Reaches value? text name → value? name = other? name) :
    interpolate value? text = interpolate other? text :=
  expand_congr maxDepth [] h

end MavenUpgrade.Interpolation

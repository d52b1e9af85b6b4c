import Mathlib
import MavenUpgrade.Proofs.Pom.Splice
import MavenUpgrade.Proofs.Xml.Descent

/-!
# Elements with new texts

What an element of a project document says once new texts are put into the document. Only elements
whose text may be edited get a new one (`Node.Accepts`), so that the elements that identify a
declaration say what they said before.
-/

namespace MavenUpgrade.Xml.Node

open Edit (middleOf)
open Text (around leadingBlanks trim IsTrimmed)

/-! ## Children -/

theorem mem_children_of_child? {node child : Node} {name : String}
    (h : node.child? name = some child) : child ∈ node.children :=
  List.mem_of_find?_eq_some h

theorem name?_of_child? {node child : Node} {name : String} (h : node.child? name = some child) :
    child.name? = some name := by
  rw [child?, List.find?_eq_some_iff_append] at h
  exact of_decide_eq_true h.1

theorem mem_childrenNamed {node child : Node} {name : String}
    (h : child ∈ node.childrenNamed name) : child ∈ node.children ∧ child.name? = some name := by
  obtain ⟨hc, hn⟩ := List.mem_filter.mp h
  exact ⟨hc, of_decide_eq_true hn⟩

variable {new : Renewal} {shift : Nat → Nat}

/-- New texts do not change the name of an element. -/
theorem name?_rewrite (node : Node) : (node.rewrite new shift).name? = node.name? := by
  cases node with
  | text start source content =>
    rw [rewrite]
    split <;> rfl
  | _ => rfl

theorem children_rewrite (node : Node) :
    (node.rewrite new shift).children = node.children.map (rewrite new shift) := by
  cases node with
  | element start name children => exact rewriteNodes_eq_map new shift children
  | text start source content =>
    rw [rewrite]
    split <;> rfl
  | aside => rfl

/-- An element is moved with its first character. -/
theorem start_rewrite {node : Node} {name : String} (h : node.name? = some name) :
    (node.rewrite new shift).start = shift node.start := by
  cases node with
  | element start name children => rfl
  | _ => cases h

theorem childrenNamed_rewrite (node : Node) (name : String) :
    (node.rewrite new shift).childrenNamed name =
      (node.childrenNamed name).map (rewrite new shift) := by
  have hp : ((fun child : Node => decide (child.name? = some name)) ∘ rewrite new shift) =
      fun child => decide (child.name? = some name) := by
    funext child
    rw [Function.comp_apply, name?_rewrite]
  rw [childrenNamed, childrenNamed, children_rewrite, List.filter_map, hp]

theorem child?_rewrite (node : Node) (name : String) :
    (node.rewrite new shift).child? name = (node.child? name).map (rewrite new shift) := by
  have hp : ((fun child : Node => decide (child.name? = some name)) ∘ rewrite new shift) =
      fun child => decide (child.name? = some name) := by
    funext child
    rw [Function.comp_apply, name?_rewrite]
  rw [child?, child?, children_rewrite, List.find?_map, hp]

theorem child?_child?_rewrite (node : Node) (outer inner : String) :
    ((node.rewrite new shift).child? outer).bind (·.child? inner) =
      ((node.child? outer).bind (·.child? inner)).map (rewrite new shift) := by
  rw [child?_rewrite]
  cases node.child? outer with
  | none => rfl
  | some child => exact child?_rewrite child inner

/-! ## Texts -/

/-- A plain element has a single text that says what is written. -/
theorem plainSpan?_eq_some_iff {node : Node} {span : Span} :
    node.plainSpan? = some span ↔ ∃ start source,
      node.children = [.text start source source] ∧ trim source ≠ [] ∧
        span = middleOf start source := by
  unfold plainSpan?
  constructor
  · intro h
    split at h
    · next start source content hc =>
      have h' : (if source = content ∧ trim source ≠ [] then
          some (Span.mk (start + (source.length - (Text.trimStart source).length))
            (start + (source.length - (Text.trimStart source).length) + (trim source).length))
          else none) = some span := h
      split at h'
      · next hp =>
        obtain ⟨rfl, hne⟩ := hp
        refine ⟨start, source, hc, hne, ?_⟩
        rw [← Option.some.inj h', middleOf, Text.length_leadingBlanks]
      · cases h'
    · cases h
  · rintro ⟨start, source, hc, hne, rfl⟩
    rw [hc, middleOf, Text.length_leadingBlanks]
    exact if_pos ⟨rfl, hne⟩

/-- The text of a plain element is not empty. -/
theorem textContent_of_plain {node : Node} {start : Nat} {source : List Char}
    (hc : node.children = [.text start source source]) :
    node.textContent = String.ofList (trim source) := by
  rw [textContent, hc, List.flatMap_singleton]
  rfl

/-- Whether the text of a child may be edited: the version of a dependency or of a parent, and the
value of a property. -/
def IsEditable (parent child : Node) : Prop :=
  parent.name? = some "properties" ∨
    (parent.name? = some "dependency" ∨ parent.name? = some "parent") ∧
      child.name? = some "version"

/-- New texts are trimmed and not empty, and each of them is the whole text of an element that may
be edited. -/
def Accepts (new : Renewal) (node : Node) : Prop :=
  ∀ above parent child start source content v, Leads node above parent → child ∈ parent.children →
    .text start source content ∈ child.children → new.at? start source = some v →
      IsEditable parent child ∧ child.children = [.text start source source] ∧ IsTrimmed v ∧ v ≠ []

theorem Accepts.of_leads {node target : Node} {above : List Node} (h : Accepts new node)
    (hl : Leads node above target) : Accepts new target := by
  induction hl with
  | here node => exact h
  | down hc hl ih =>
    refine ih fun above parent child start source content v hl' => ?_
    exact h _ parent child start source content v (.down hc hl')

theorem Accepts.child {node child : Node} (h : Accepts new node) (hc : child ∈ node.children) :
    Accepts new child :=
  h.of_leads (.down hc (.here child))

/-- What an element says under new texts. -/
def renewed (new : Renewal) (node : Node) : String :=
  ((node.plainSpan?.bind fun span => new span.start).map String.ofList).getD node.textContent

/-- Where no text has a new one, an element says what it said before. -/
theorem textContent_rewrite_of_kept {node : Node}
    (h : ∀ start source content, .text start source content ∈ node.children →
      new.at? start source = none) :
    (node.rewrite new shift).textContent = node.textContent := by
  have hc : (node.children.map (rewrite new shift)).flatMap content =
      node.children.flatMap content := by
    rw [List.flatMap_map]
    refine List.flatMap_congr fun child hchild => ?_
    cases child with
    | text start source said =>
      rw [rewrite, h start source said hchild]
      rfl
    | _ => rfl
  rw [textContent, textContent, children_rewrite, hc]

variable {parent child : Node}

/-- An element that may not be edited says what it said before. -/
theorem Accepts.textContent_of_not_editable (h : Accepts new parent)
    (hc : child ∈ parent.children) (hne : ¬ IsEditable parent child) :
    (child.rewrite new shift).textContent = child.textContent := by
  refine textContent_rewrite_of_kept fun start source content ht => ?_
  cases hv : new.at? start source with
  | none => rfl
  | some v => exact absurd (h _ _ _ _ _ _ _ (.here parent) hc ht hv).1 hne

/-- An element with a new text says this text, and every other one what it said before. -/
theorem Accepts.textContent_rewrite (h : Accepts new parent) (hc : child ∈ parent.children) :
    (child.rewrite new shift).textContent = child.renewed new := by
  by_cases hit : ∃ start source content v, .text start source content ∈ child.children ∧
      new.at? start source = some v
  · -- a text that is replaced is all that the child holds
    obtain ⟨start, source, content, v, ht, hv⟩ := hit
    obtain ⟨-, hchildren, htrim, hne⟩ := h _ _ _ _ _ _ _ (.here parent) hc ht hv
    have hsource := Edit.trim_ne_nil_of_at? hv
    have hnew : new (middleOf start source).start = some v := by
      rw [Renewal.at?, if_neg hsource] at hv
      exact hv
    have hplain : child.plainSpan? = some (middleOf start source) :=
      plainSpan?_eq_some_iff.mpr ⟨start, source, hchildren, hsource, rfl⟩
    rw [renewed, hplain, Option.bind_some, hnew, textContent, children_rewrite, hchildren]
    show String.ofList (trim ((rewrite new shift (.text start source source)).content ++ [])) = _
    rw [rewrite, hv, List.append_nil]
    show String.ofList (trim (around source v ++ source.drop source.length)) = String.ofList v
    rw [List.drop_length, List.append_nil, Text.trim_around source htrim hne]
  · push Not at hit
    have hkept (start : Nat) (source content : List Char)
        (ht : .text start source content ∈ child.children) : new.at? start source = none :=
      Option.eq_none_iff_forall_ne_some.mpr fun v hv => hit start source content v ht hv
    rw [textContent_rewrite_of_kept hkept, renewed]
    cases hp : child.plainSpan? with
    | none => rfl
    | some span =>
      obtain ⟨start, source, hchildren, hne, rfl⟩ := plainSpan?_eq_some_iff.mp hp
      have hv := hkept start source source (hchildren ▸ List.mem_singleton_self _)
      rw [Renewal.at?, if_neg hne] at hv
      have hnew : new (middleOf start source).start = none := hv
      rw [Option.bind_some, hnew]
      rfl

/-- Something is said under new texts where something was said before. -/
theorem Accepts.renewed_isEmpty (h : Accepts new parent) (hc : child ∈ parent.children) :
    (child.renewed new).isEmpty = child.textContent.isEmpty := by
  rw [renewed]
  cases hp : child.plainSpan? with
  | none => rfl
  | some span =>
    obtain ⟨start, source, hchildren, hne, rfl⟩ := plainSpan?_eq_some_iff.mp hp
    rw [Option.bind_some]
    cases hv : new (middleOf start source).start with
    | none => rfl
    | some v =>
      have hat : new.at? start source = some v := by
        rw [Renewal.at?, if_neg hne]
        exact hv
      obtain ⟨-, -, -, hv'⟩ := h _ _ _ _ _ _ _ (.here parent) hc
        (hchildren ▸ List.mem_singleton_self _) hat
      have hsaid {cs : List Char} (hcs : cs ≠ []) : (String.ofList cs).isEmpty = false := by
        simpa [String.isEmpty_iff] using hcs
      show (String.ofList v).isEmpty = _
      rw [textContent_of_plain hchildren, hsaid hv', hsaid hne]

/-- A child that identifies a declaration says what it said before. -/
theorem Accepts.childText?_rewrite (h : Accepts new parent) {kind name : String}
    (hkind : parent.name? = some kind) (hp : kind ≠ "properties")
    (hv : name = "version" → kind ≠ "dependency" ∧ kind ≠ "parent") :
    (parent.rewrite new shift).childText? name = parent.childText? name := by
  rw [childText?, childText?, child?_rewrite]
  cases hc : parent.child? name with
  | none => rfl
  | some child =>
    have hne : ¬ IsEditable parent child := by
      rw [IsEditable, hkind, name?_of_child? hc]
      rintro (he | ⟨he, hn⟩)
      · exact hp (Option.some.inj he)
      · obtain ⟨hd, hp'⟩ := hv (Option.some.inj hn)
        rcases he with he | he
        · exact hd (Option.some.inj he)
        · exact hp' (Option.some.inj he)
    have hkept : (child.rewrite new shift).textContent = child.textContent :=
      h.textContent_of_not_editable (mem_children_of_child? hc) hne
    show Option.filter _ (some ((child.rewrite new shift).textContent)) = _
    rw [hkept]
    rfl

end MavenUpgrade.Xml.Node

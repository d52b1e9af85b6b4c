import Mathlib
import MavenUpgrade.Proofs.Text.Trim
import MavenUpgrade.Proofs.Xml.Cutting
import MavenUpgrade.Proofs.Xml.Data
import MavenUpgrade.Proofs.Xml.Item

/-!
# Documents with new texts

New texts are put in the place of some texts of a document, between the blanks around them. The
pieces of the changed document are the pieces of the document in which these texts are replaced,
and its tree is the tree with the new texts (`rewrite_addPieces?`).
-/

namespace MavenUpgrade.Xml

open Text (around leadingBlanks trim)

/-! ## New texts -/

/-- New texts, each by the offset of what it replaces. -/
abbrev Renewal := Nat → Option (List Char)

/-- The new text for a source that begins at the given offset; blanks are not replaced. -/
def Renewal.at? (new : Renewal) (start : Nat) (source : List Char) : Option (List Char) :=
  if trim source = [] then none else new (start + (leadingBlanks source).length)

mutual

/-- A tree with new texts, whose nodes are moved to other offsets. -/
def Node.rewrite (new : Renewal) (shift : Nat → Nat) : Node → Node
  | .element start name children => .element (shift start) name (rewriteNodes new shift children)
  | .text start source content =>
    match new.at? start source with
    | some v => .text (shift start) (around source (v.flatMap escapeChar))
        (around source v ++ content.drop source.length)
    | none => .text (shift start) source content
  | .aside => .aside

/-- Trees with new texts. -/
def rewriteNodes (new : Renewal) (shift : Nat → Nat) : List Node → List Node
  | [] => []
  | node :: nodes => node.rewrite new shift :: rewriteNodes new shift nodes

end

theorem rewriteNodes_eq_map (new : Renewal) (shift : Nat → Nat) (nodes : List Node) :
    rewriteNodes new shift nodes = nodes.map (Node.rewrite new shift) := by
  induction nodes with
  | nil => rfl
  | cons node nodes ih => rw [rewriteNodes, ih, List.map_cons]

namespace Piece

/-- A piece at the given offset, with a new text. -/
def rewrite (new : Renewal) (start : Nat) : Piece → Piece
  | text raw =>
    match new.at? start raw with
    | some v => text (around raw (v.flatMap escapeChar))
    | none => text raw
  | p => p

/-- Pieces with new texts; the first of them begins at the given offset. -/
def rewriteAll (new : Renewal) (start : Nat) : List Piece → List Piece
  | [] => []
  | p :: ps => p.rewrite new start :: rewriteAll new (start + p.chars.length) ps

end Piece

/-- A text that can be written down so that it is read back: it is not empty, and its characters
are those of XML other than the carriage return. -/
structure IsLegible (v : List Char) : Prop where
  ne_nil : v ≠ []
  no_return : '\r' ∉ v
  isXmlChar : ∀ c ∈ v, isXmlChar c = true

instance (v : List Char) : Decidable (IsLegible v) :=
  decidable_of_iff (v ≠ [] ∧ '\r' ∉ v ∧ v.all isXmlChar = true)
    ⟨fun ⟨h₁, h₂, h₃⟩ => ⟨h₁, h₂, List.all_eq_true.mp h₃⟩,
      fun ⟨h₁, h₂, h₃⟩ => ⟨h₁, h₂, List.all_eq_true.mpr h₃⟩⟩

/-- New texts that fit the pieces of a document: they are legible and replace plain character
data. -/
def Renewal.Fits (new : Renewal) (pieces : List (Nat × Piece)) : Prop :=
  ∀ start piece v, (start, piece) ∈ pieces → new.at? start piece.chars = some v →
    ∃ raw, piece = .text raw ∧ '&' ∉ raw ∧ '\r' ∉ raw ∧ IsLegible v

/-! ## Replaced character data -/

/-- Escaped characters are no markup. -/
theorem not_mem_escaped {c : Char} (hc : c = '<' ∨ c = '>') (cs : List Char) :
    c ∉ cs.flatMap escapeChar := by
  intro hm
  obtain ⟨d, -, hd⟩ := List.mem_flatMap.mp hm
  unfold escapeChar at hd
  rcases hc with rfl | rfl
  · split at hd
    · exact absurd hd (by decide)
    · exact absurd hd (by decide)
    · exact absurd hd (by decide)
    · next _ hlt _ => exact hlt (List.mem_singleton.mp hd).symm
  · split at hd
    · exact absurd hd (by decide)
    · exact absurd hd (by decide)
    · exact absurd hd (by decide)
    · next _ _ hgt => exact hgt (List.mem_singleton.mp hd).symm

/-- Replaced character data holds no brackets: only blanks of the old data remain. -/
theorem not_mem_around_escaped {c : Char} (hc : c = '<' ∨ c = '>') (raw v : List Char) :
    c ∉ around raw (v.flatMap escapeChar) := by
  have hblank : Text.isBlank c = false := by
    rcases hc with rfl | rfl <;> decide
  rw [around, List.mem_append, List.mem_append]
  rintro ((hm | hm) | hm)
  · exact Text.not_mem_leadingBlanks hblank raw hm
  · exact not_mem_escaped hc v hm
  · exact Text.not_mem_trailingBlanks hblank raw hm

/-- Data without a closing bracket does not end a literal section. -/
theorem endsCdata_of_not_mem {cs : List Char} (h : '>' ∉ cs) :
    Progress.endsCdata cs = false := by
  induction cs with
  | nil => rfl
  | cons c cs ih =>
    rw [List.mem_cons, not_or] at h
    unfold Progress.endsCdata
    split
    · next rest heq =>
      obtain ⟨-, rfl⟩ := List.cons.inj heq
      exact absurd (List.mem_cons_of_mem _ List.mem_cons_self) h.2
    · next heq => rw [← (List.cons.inj heq).2]; exact ih h.2
    · rfl

/-- Replaced character data says the new text between the old blanks. -/
theorem data?_around_escaped {raw v : List Char} (hr : '\r' ∉ raw) (hv : '\r' ∉ v) :
    data? (around raw (v.flatMap escapeChar)) = some (around raw v) := by
  have hlead : '\r' ∉ leadingBlanks raw := fun hm =>
    hr ((List.takeWhile_sublist _).subset hm)
  have htail : '\r' ∉ Text.trailingBlanks raw := by
    intro hm
    refine hr ?_
    rw [← Text.around_trim raw, around, List.mem_append]
    exact Or.inr hm
  exact data?_around (Text.not_mem_leadingBlanks (by decide) raw) hlead hv
    (Text.not_mem_trailingBlanks (by decide) raw) htail

/-! ## The tree of the changed document -/

namespace OpenElement

/-- An open element with new texts. -/
def rewrite (new : Renewal) (shift : Nat → Nat) (e : OpenElement) : OpenElement :=
  { e with start := shift e.start, children := rewriteNodes new shift e.children }

end OpenElement

namespace Progress

/-- What is known of a document, with new texts. -/
def rewrite (new : Renewal) (shift : Nat → Nat) (p : Progress) : Progress where
  opened := p.opened.map (OpenElement.rewrite new shift)
  root := p.root.map (Node.rewrite new shift)

variable {new : Renewal} {shift : Nat → Nat} {p q : Progress}

theorem isEmpty_opened_rewrite (p : Progress) :
    (p.rewrite new shift).opened.isEmpty = p.opened.isEmpty := by
  rw [rewrite, List.isEmpty_map]

theorem rewrite_add (p : Progress) (node : Node) :
    (p.add node).rewrite new shift = (p.rewrite new shift).add (node.rewrite new shift) := by
  obtain ⟨opened, root⟩ := p
  cases opened with
  | nil => rfl
  | cons e outer => rfl

theorem rewrite_addElement (p : Progress) (node : Node) :
    (p.addElement node).rewrite new shift =
      (p.rewrite new shift).addElement (node.rewrite new shift) := by
  obtain ⟨opened, root⟩ := p
  cases opened with
  | nil => rfl
  | cons e outer => rfl

/-- A tag is taken in by the same rule in the changed document. -/
theorem TakesTag.rewrite {start : Nat} {tag : Tag} (h : p.TakesTag start tag q) :
    (p.rewrite new shift).TakesTag (shift start) tag (q.rewrite new shift) := by
  have hopen : (p.rewrite new shift).mayOpen = p.mayOpen := by
    obtain ⟨opened, root⟩ := p
    cases opened <;> cases root <;> rfl
  have hknown : (p.rewrite new shift).known = p.known := by
    obtain ⟨opened, root⟩ := p
    cases opened <;> rfl
  cases h with
  | complete hm hi =>
    rw [rewrite_addElement]
    exact .complete (hopen.trans hm) (hknown.symm ▸ hi)
  | opens hm hi => exact .opens (hopen.trans hm) (hknown.symm ▸ hi)
  | @closes e outer ho =>
    have ho' : (p.rewrite new shift).opened =
        e.rewrite new shift :: outer.map (OpenElement.rewrite new shift) := congrArg _ ho
    rw [rewrite_addElement, Node.rewrite, rewriteNodes_eq_map, List.map_reverse,
      ← rewriteNodes_eq_map]
    exact .closes ho'

/-- Whether the last node so far is a text, which a further text would join. -/
def endsInText (p : Progress) : Bool :=
  match p.opened with
  | ⟨_, _, _, .text _ _ _ :: _⟩ :: _ => true
  | _ => false

theorem endsInText_rewrite (p : Progress) :
    (p.rewrite new shift).endsInText = p.endsInText := by
  obtain ⟨opened, root⟩ := p
  rcases opened with _ | ⟨⟨es, name, known, _ | ⟨child, children⟩⟩, outer⟩
  · rfl
  · rfl
  · cases child with
    | text s src c =>
      show endsInText ⟨⟨_, _, _, Node.rewrite new shift (.text s src c) :: _⟩ :: _, _⟩ = true
      rw [Node.rewrite]
      cases new.at? s src <;> rfl
    | element s n cs => rfl
    | aside => rfl

/-- A text that has nothing to join is a node of its own. -/
theorem addText_of_not_endsInText (h : p.endsInText = false) (start : Nat)
    (source content : List Char) :
    p.addText start source content = p.add (.text start source content) := by
  obtain ⟨opened, root⟩ := p
  rcases opened with _ | ⟨⟨es, name, known, _ | ⟨child, children⟩⟩, outer⟩
  · rfl
  · rfl
  · cases child with
    | text s src c => cases h
    | element s n cs => rfl
    | aside => rfl

/-- A text that joins another one adds no item. -/
theorem items_addText_of_endsInText (h : p.endsInText = true) (start : Nat)
    (source content : List Char) :
    (p.addText start source content).items.map Item.start = p.items.map Item.start := by
  obtain ⟨opened, root⟩ := p
  rcases opened with _ | ⟨⟨es, name, known, _ | ⟨child, children⟩⟩, outer⟩
  · cases h
  · cases h
  · cases child with
    | text s src c => rfl
    | element s n cs => cases h
    | aside => cases h

/-- A text that stays joins what it follows, or begins a new text, in the changed document as
well. The first piece of a replaced text is there in full, so that only this piece is replaced. -/
theorem rewrite_addText {start : Nat} {source content : List Char}
    (hnew : new.at? start source = none)
    (hlong : ∀ s src c, Item.text s src c ∈ p.items → (new.at? s src).isSome = true →
      src.length ≤ c.length) :
    (p.addText start source content).rewrite new shift =
      (p.rewrite new shift).addText (shift start) source content := by
  by_cases htext : p.endsInText = true
  · obtain ⟨opened, root⟩ := p
    rcases opened with _ | ⟨⟨es, name, known, _ | ⟨child, children⟩⟩, outer⟩
    · cases htext
    · cases htext
    · cases child with
      | element s n cs => cases htext
      | aside => cases htext
      | text s src c =>
        have hlength := hlong s src c (List.mem_append_left _ (List.mem_append_left _
          (List.mem_cons_of_mem _ List.mem_cons_self)))
        show Progress.mk (⟨shift es, name, known,
            Node.rewrite new shift (.text s src (c ++ content)) :: rewriteNodes new shift children⟩
              :: outer.map (OpenElement.rewrite new shift)) (root.map (Node.rewrite new shift)) =
          Progress.addText ⟨⟨shift es, name, known,
            Node.rewrite new shift (.text s src c) :: rewriteNodes new shift children⟩
              :: outer.map (OpenElement.rewrite new shift), root.map (Node.rewrite new shift)⟩
            (shift start) source content
        -- of a replaced text only the first piece changes, and what joins it comes behind
        rw [Node.rewrite, Node.rewrite]
        cases hv : new.at? s src with
        | none => rfl
        | some v =>
          rw [hv] at hlength
          show Progress.mk (⟨shift es, name, known, .text (shift s) _
              (around src v ++ (c ++ content).drop src.length) :: _⟩ :: _) _ =
            Progress.mk (⟨shift es, name, known, .text (shift s) _
              (around src v ++ c.drop src.length ++ content) :: _⟩ :: _) _
          rw [List.drop_append_of_le_length (hlength rfl), List.append_assoc]
  · rw [Bool.not_eq_true] at htext
    have htext' : (p.rewrite new shift).endsInText = false :=
      (endsInText_rewrite p).trans htext
    rw [addText_of_not_endsInText htext, addText_of_not_endsInText htext', rewrite_add,
      Node.rewrite, hnew]

/-- The first piece of a replaced text is there in full. -/
theorem length_le_of_fits {pieces : List (Nat × Piece)} {start : Nat} (hfit : new.Fits pieces)
    (hs : Sound pieces start p.items) (s : Nat) (src c : List Char)
    (hi : .text s src c ∈ p.items) (hn : (new.at? s src).isSome = true) :
    src.length ≤ c.length := by
  obtain ⟨piece, said, more, hp, rfl, hsays, rfl⟩ := hs.text s src c hi
  obtain ⟨v, hv⟩ := Option.isSome_iff_exists.mp hn
  obtain ⟨raw, rfl, ha, hr, -⟩ := hfit s piece v hp hv
  cases hsays with
  | text hd =>
    rw [data?_of_plain ha hr] at hd
    rw [← Option.some.inj hd, List.length_append]
    exact Nat.le_add_right _ _

/-- Character data that is replaced begins a text of the changed document. -/
theorem rewrite_addText_replaced {start : Nat} {raw v : List Char}
    (hv : new.at? start raw = some v)
    (hbefore : start ∉ p.items.map Item.start)
    (hafter : start ∈ (p.addText start raw raw).items.map Item.start) :
    (p.addText start raw raw).rewrite new shift =
      (p.rewrite new shift).addText (shift start) (around raw (v.flatMap escapeChar))
        (around raw v) := by
  have htext : p.endsInText = false := by
    rw [Bool.eq_false_iff]
    intro ht
    rw [items_addText_of_endsInText ht] at hafter
    exact hbefore hafter
  have htext' : (p.rewrite new shift).endsInText = false := (endsInText_rewrite p).trans htext
  rw [addText_of_not_endsInText htext, addText_of_not_endsInText htext', rewrite_add,
    Node.rewrite, hv]
  show (p.rewrite new shift).add (.text _ _ (around raw v ++ raw.drop raw.length)) = _
  rw [List.drop_length, List.append_nil]

/-- A piece that stays is taken in by the same rule in the changed document. -/
theorem Takes.rewrite_kept {start : Nat} {piece : Piece} (h : p.Takes start piece q)
    (hv : new.at? start piece.chars = none)
    (hlong : ∀ s src c, Item.text s src c ∈ p.items → (new.at? s src).isSome = true →
      src.length ≤ c.length) :
    (p.rewrite new shift).Takes (shift start) piece (q.rewrite new shift) := by
  have hopened : (p.rewrite new shift).opened.isEmpty = p.opened.isEmpty :=
    isEmpty_opened_rewrite p
  cases h with
  | blank ho hb => exact .blank (hopened.trans ho) hb
  | @text raw content ho hc hd =>
    have hraw : new.at? start raw = none := hv
    rw [rewrite_addText hraw hlong]
    exact .text (hopened.trans ho) hc hd
  | cdata ho =>
    rw [rewrite_addText hv hlong]
    exact .cdata (hopened.trans ho)
  | comment hc =>
    rw [rewrite_add]
    exact .comment hc
  | instruction hc =>
    rw [rewrite_add]
    exact .instruction hc
  | tag ht hq => exact .tag ht hq.rewrite

/-- Character data that is replaced is taken in as a text of the changed document. -/
theorem Takes.rewrite_replaced {start : Nat} {raw v : List Char} (h : p.Takes start (.text raw) q)
    (hv : new.at? start raw = some v) (ha : '&' ∉ raw) (hr : '\r' ∉ raw) (hlegible : IsLegible v)
    (hbefore : start ∉ p.items.map Item.start) (hafter : start ∈ q.items.map Item.start) :
    (p.rewrite new shift).Takes (shift start) (.text (around raw (v.flatMap escapeChar)))
      (q.rewrite new shift) := by
  cases h with
  | blank ho hb => exact absurd hafter hbefore
  | text ho hc hd =>
    obtain rfl := Option.some.inj ((data?_of_plain ha hr).symm.trans hd)
    rw [rewrite_addText_replaced hv hbefore hafter]
    exact .text ((isEmpty_opened_rewrite p).trans ho)
      (endsCdata_of_not_mem (not_mem_around_escaped (Or.inr rfl) raw v))
      (data?_around_escaped hr hlegible.no_return)

/-- A piece does the same in the changed document. -/
theorem rewrite_addPiece? {pieces : List (Nat × Piece)} {start : Nat} {piece : Piece}
    (hfit : new.Fits pieces) (hs : Sound pieces start p.items) (hp : (start, piece) ∈ pieces)
    (hbegins : (new.at? start piece.chars).isSome = true → start ∈ q.items.map Item.start)
    (h : p.addPiece? start piece = some q) :
    (p.rewrite new shift).addPiece? (shift start) (piece.rewrite new start) =
      some (q.rewrite new shift) := by
  rw [addPiece?_eq_some_iff] at h ⊢
  cases hv : new.at? start piece.chars with
  | none =>
    have hkeep : piece.rewrite new start = piece := by
      cases piece with
      | text raw =>
        have hraw : new.at? start raw = none := hv
        rw [Piece.rewrite, hraw]
      | _ => rfl
    rw [hkeep]
    exact h.rewrite_kept hv (length_le_of_fits hfit hs)
  | some v =>
    -- new texts replace plain character data only
    obtain ⟨raw, rfl, ha, hr, hlegible⟩ := hfit start piece v hp hv
    have hraw : new.at? start raw = some v := hv
    -- the items so far begin before the piece
    have hfresh : start ∉ p.items.map Item.start := by
      intro hm
      obtain ⟨item, hi, he⟩ := List.mem_map.mp hm
      have := hs.lt item hi
      omega
    rw [Piece.rewrite, hraw]
    exact h.rewrite_replaced hraw ha hr hlegible hfresh (hbegins (Option.isSome_of_eq_some hv))

/-- The offsets at which pieces begin once those before them have changed their lengths. -/
def Moves (new : Renewal) (shift : Nat → Nat) (start : Nat) : List Piece → Prop
  | [] => True
  | p :: ps => shift (start + p.chars.length) = shift start + (p.rewrite new start).chars.length ∧
      Moves new shift (start + p.chars.length) ps

/-- **The tree of the changed pieces is the tree with the new texts.** -/
theorem rewrite_addPieces? {pieces : List (Nat × Piece)} {start : Nat} {ps : List Piece}
    (hfit : new.Fits pieces) (hpos : ∀ piece ∈ ps, 0 < piece.chars.length)
    (hsub : ∀ place ∈ Piece.placed start ps, place ∈ pieces) (hs : Sound pieces start p.items)
    (hmoves : Moves new shift start ps) (h : p.addPieces? start ps = some q)
    (hbegins : ∀ place ∈ Piece.placed start ps, (new.at? place.1 place.2.chars).isSome = true →
      place.1 ∈ q.items.map Item.start) :
    (p.rewrite new shift).addPieces? (shift start) (Piece.rewriteAll new start ps) =
      some (q.rewrite new shift) := by
  induction ps generalizing p start with
  | nil =>
    rw [← Option.some.inj h]
    rfl
  | cons piece ps ih =>
    obtain ⟨p₁, h₁, hrest⟩ := Option.bind_eq_some_iff.mp h
    have hp : (start, piece) ∈ pieces := hsub _ List.mem_cons_self
    have hlen := hpos piece List.mem_cons_self
    have hstep : (p.rewrite new shift).addPiece? (shift start) (piece.rewrite new start) =
        some (p₁.rewrite new shift) := by
      refine rewrite_addPiece? hfit hs hp (fun hn => ?_) h₁
      -- an item at this offset is not added by a later piece
      rcases start_mem_of_addPieces? hrest (hbegins _ List.mem_cons_self hn) with hm | hle
      · exact hm
      · omega
    have hs₁ := (hs.of_extends hp (extends_addPiece? h₁)).mono
      (show start + 1 ≤ start + piece.chars.length by omega)
    rw [Piece.rewriteAll, addPieces?, hstep, Option.bind_some, ← hmoves.1]
    exact ih (fun q hq => hpos q (List.mem_cons_of_mem _ hq))
      (fun place hm => hsub place (List.mem_cons_of_mem _ hm)) hs₁ hmoves.2 hrest
      (fun place hm => hbegins place (List.mem_cons_of_mem _ hm))

end Progress

end MavenUpgrade.Xml

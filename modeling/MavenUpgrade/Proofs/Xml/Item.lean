import Mathlib
import MavenUpgrade.Xml.Document

/-!
# The items of a document

Each element and each text of a document begins where one of its pieces does, and no two of them
at the same offset. The source of a text is a piece of character data or a literal section, and
the text says what this piece says, and possibly more (`Sound.addPieces?`).
-/

namespace MavenUpgrade.Xml

/-! ## Pieces and their places -/

namespace Piece

/-- What a piece of text says. -/
inductive Says : Piece → List Char → Prop where
  | text {raw content : List Char} (h : data? raw = some content) : Says (.text raw) content
  | cdata (content : List Char) : Says (.cdata content) (cdataText content)

/-- Pieces with the offsets at which they begin, of which the first is given. -/
def placed (start : Nat) : List Piece → List (Nat × Piece)
  | [] => []
  | p :: ps => (start, p) :: placed (start + p.chars.length) ps

/-- No piece begins before the first one. -/
theorem le_of_mem_placed {start o : Nat} {p : Piece} {ps : List Piece}
    (h : (o, p) ∈ placed start ps) : start ≤ o := by
  induction ps generalizing start with
  | nil => cases h
  | cons q ps ih =>
    rcases List.mem_cons.mp h with he | h
    · rw [(Prod.mk.inj he).1]
    · exact (Nat.le_add_right _ _).trans (ih h)

theorem mem_of_mem_placed {start o : Nat} {p : Piece} {ps : List Piece}
    (h : (o, p) ∈ placed start ps) : p ∈ ps := by
  induction ps generalizing start with
  | nil => cases h
  | cons q ps ih =>
    rcases List.mem_cons.mp h with he | h
    · rw [(Prod.mk.inj he).2]
      exact List.mem_cons_self
    · exact List.mem_cons_of_mem _ (ih h)

/-- Each place in a text lies in one piece only. -/
theorem placed_unique {start o₁ o₂ x : Nat} {p₁ p₂ : Piece} {ps : List Piece}
    (h₁ : (o₁, p₁) ∈ placed start ps) (h₂ : (o₂, p₂) ∈ placed start ps)
    (hx₁ : o₁ ≤ x ∧ x < o₁ + p₁.chars.length) (hx₂ : o₂ ≤ x ∧ x < o₂ + p₂.chars.length) :
    o₁ = o₂ ∧ p₁ = p₂ := by
  induction ps generalizing start with
  | nil => cases h₁
  | cons q ps ih =>
    rcases List.mem_cons.mp h₁ with e₁ | h₁' <;> rcases List.mem_cons.mp h₂ with e₂ | h₂'
    · obtain ⟨rfl, rfl⟩ := Prod.mk.inj e₁
      obtain ⟨rfl, rfl⟩ := Prod.mk.inj e₂
      exact ⟨rfl, rfl⟩
    · obtain ⟨rfl, rfl⟩ := Prod.mk.inj e₁
      have := le_of_mem_placed h₂'
      omega
    · obtain ⟨rfl, rfl⟩ := Prod.mk.inj e₂
      have := le_of_mem_placed h₁'
      omega
    · exact ih h₁' h₂'

end Piece

/-! ## Items -/

/-- What may begin at an offset of a document: an element, or a text with its source and what it
says. -/
inductive Item where
  | element (start : Nat)
  | text (start : Nat) (source content : List Char)

/-- The offset of an item. -/
def Item.start : Item → Nat
  | element start => start
  | text start _ _ => start

mutual

/-- The items of a tree. -/
def Node.items : Node → List Item
  | .element start _ children => .element start :: itemsOf children
  | .text start source content => [.text start source content]
  | .aside => []

/-- The items of trees. -/
def itemsOf : List Node → List Item
  | [] => []
  | node :: nodes => node.items ++ itemsOf nodes

end

theorem itemsOf_append (ns ms : List Node) : itemsOf (ns ++ ms) = itemsOf ns ++ itemsOf ms := by
  induction ns with
  | nil => rfl
  | cons n ns ih => rw [List.cons_append, itemsOf, itemsOf, ih, List.append_assoc]

theorem itemsOf_reverse_perm (ns : List Node) : (itemsOf ns.reverse).Perm (itemsOf ns) := by
  induction ns with
  | nil => exact .refl _
  | cons n ns ih =>
    rw [List.reverse_cons, itemsOf_append, itemsOf, itemsOf, itemsOf, List.append_nil]
    exact (ih.append_right _).trans List.perm_append_comm

/-- The items of a child are among those of its parent. -/
theorem mem_itemsOf {node : Node} {nodes : List Node} (h : node ∈ nodes) {item : Item}
    (hi : item ∈ node.items) : item ∈ itemsOf nodes := by
  induction nodes with
  | nil => cases h
  | cons n ns ih =>
    rw [itemsOf, List.mem_append]
    rcases List.mem_cons.mp h with rfl | h
    · exact Or.inl hi
    · exact Or.inr (ih h)

/-- The items of an element whose end tag has not come yet. -/
def OpenElement.items (e : OpenElement) : List Item :=
  .element e.start :: itemsOf e.children

namespace Progress

/-- The items of a document so far. -/
def items (p : Progress) : List Item :=
  p.opened.flatMap OpenElement.items ++ (p.root.map Node.items).getD []

/-- What a piece may add to the items of a document. -/
inductive Extends (start : Nat) (piece : Piece) (before after : List Item) : Prop where
  | same (h : after.Subperm before)
  | element (h : after.Subperm (.element start :: before))
  | text (said : List Char) (hs : piece.Says said)
      (h : after.Subperm (.text start piece.chars said :: before))
  | joined (s : Nat) (source content more : List Char) (rest : List Item)
      (hb : before.Perm (.text s source content :: rest))
      (h : after.Subperm (.text s source (content ++ more) :: rest))

/-- Adding a node adds its items. -/
theorem items_add (p : Progress) (node : Node) :
    (p.add node).items.Subperm (node.items ++ p.items) := by
  obtain ⟨opened, root⟩ := p
  cases opened with
  | nil => exact (List.sublist_append_right _ _).subperm
  | cons e outer =>
    refine List.Perm.subperm ?_
    show (.element e.start :: (node.items ++ itemsOf e.children) ++
        outer.flatMap OpenElement.items ++ (root.map Node.items).getD []).Perm
      (node.items ++ (.element e.start :: itemsOf e.children ++
        outer.flatMap OpenElement.items ++ (root.map Node.items).getD []))
    simp only [List.cons_append, List.append_assoc]
    exact List.perm_middle.symm

/-- Adding a complete element adds its items. -/
theorem items_addElement (p : Progress) (node : Node) :
    (p.addElement node).items.Subperm (node.items ++ p.items) := by
  obtain ⟨opened, root⟩ := p
  cases opened with
  | nil => exact (List.sublist_append_left node.items _).subperm
  | cons e outer => exact items_add ⟨e :: outer, root⟩ node

/-- A text is added as a new item, or joins an item. -/
theorem extends_addText {p : Progress} {start : Nat} {piece : Piece} {said : List Char}
    (hs : piece.Says said) (ho : p.opened ≠ []) :
    Extends start piece p.items (p.addText start piece.chars said).items := by
  obtain ⟨opened, root⟩ := p
  cases opened with
  | nil => exact absurd rfl ho
  | cons e outer =>
    obtain ⟨es, name, known, children⟩ := e
    have hnew (h : (Progress.addText ⟨⟨es, name, known, children⟩ :: outer, root⟩ start
        piece.chars said) = Progress.add ⟨⟨es, name, known, children⟩ :: outer, root⟩
          (.text start piece.chars said)) :
        Extends start piece (items ⟨⟨es, name, known, children⟩ :: outer, root⟩)
          (Progress.addText ⟨⟨es, name, known, children⟩ :: outer, root⟩ start
            piece.chars said).items := by
      rw [h]
      exact .text said hs (items_add _ _)
    cases children with
    | nil => exact hnew rfl
    | cons child children =>
      cases child with
      | element => exact hnew rfl
      | aside => exact hnew rfl
      | text s source content =>
        -- the item of the text is the second one, behind that of the open element
        refine .joined s source content said (.element es :: itemsOf children ++
          outer.flatMap OpenElement.items ++ (root.map Node.items).getD []) ?_ ?_
        · show (.element es :: (.text s source content :: itemsOf children) ++
            outer.flatMap OpenElement.items ++ (root.map Node.items).getD []).Perm _
          exact List.Perm.swap _ _ _
        · refine List.Perm.subperm ?_
          show (.element es :: (.text s source (content ++ said) :: itemsOf children) ++
            outer.flatMap OpenElement.items ++ (root.map Node.items).getD []).Perm _
          exact List.Perm.swap _ _ _

/-- How a tag is taken in: it is a complete element, it opens one, or it ends the innermost one. -/
inductive TakesTag (p : Progress) (start : Nat) : Tag → Progress → Prop where
  | complete {name : Name} {attributes : List Attribute} {inside : Namespaces}
      (hm : p.mayOpen = true) (hi : enter? p.known name attributes = some inside) :
      TakesTag p start (.opening name attributes true) (p.addElement (.element start name.base []))
  | opens {name : Name} {attributes : List Attribute} {inside : Namespaces}
      (hm : p.mayOpen = true) (hi : enter? p.known name attributes = some inside) :
      TakesTag p start (.opening name attributes false)
        { p with opened := ⟨start, name, inside, []⟩ :: p.opened }
  | closes {e : OpenElement} {outer : List OpenElement} (ho : p.opened = e :: outer) :
      TakesTag p start (.closing e.name) (({ p with opened := outer } : Progress).addElement
        (.element e.start e.name.base e.children.reverse))

/-- A tag is taken in by one of these rules. -/
theorem addTag?_eq_some_iff {p q : Progress} {start : Nat} {tag : Tag} :
    p.addTag? start tag = some q ↔ p.TakesTag start tag q := by
  constructor
  · intro h
    cases tag with
    | opening name attributes isEmpty =>
      rw [addTag?] at h
      split at h
      · next hm =>
        obtain ⟨inside, hi, rfl⟩ := Option.map_eq_some_iff.mp h
        cases isEmpty with
        | true => exact .complete hm hi
        | false => exact .opens hm hi
      · cases h
    | closing name =>
      rw [addTag?] at h
      split at h
      · next e outer ho =>
        split at h
        · next hn =>
          obtain rfl := Option.some.inj h
          exact hn ▸ .closes ho
        · cases h
      · cases h
  · intro h
    cases h with
    | complete hm hi => rw [addTag?, if_pos hm, hi]; rfl
    | opens hm hi => rw [addTag?, if_pos hm, hi]; rfl
    | closes ho =>
      rw [addTag?, ho]
      exact if_pos rfl

/-- A tag begins an element at its own offset, or ends one. -/
theorem TakesTag.extends {p q : Progress} {start : Nat} {tag : Tag} (piece : Piece)
    (h : p.TakesTag start tag q) : Extends start piece p.items q.items := by
  cases h with
  | complete hm hi => exact .element (items_addElement p _)
  | opens hm hi => exact .element (List.Subperm.refl _)
  | @closes e outer ho =>
    obtain ⟨opened, root⟩ := p
    obtain rfl : opened = e :: outer := ho
    -- the children are turned around, which leaves their items the same up to order
    refine .same ((items_addElement _ _).trans (List.Perm.subperm ?_))
    show (.element e.start :: itemsOf e.children.reverse ++
      (outer.flatMap OpenElement.items ++ (root.map Node.items).getD [])).Perm
        ((.element e.start :: itemsOf e.children ++ outer.flatMap OpenElement.items) ++
          (root.map Node.items).getD [])
    rw [List.append_assoc]
    exact ((itemsOf_reverse_perm e.children).cons _).append_right _

/-- How a piece is taken in. Outside of every element there are blanks only; inside of one, character
data and literal sections are added as texts. -/
inductive Takes (p : Progress) (start : Nat) : Piece → Progress → Prop where
  | blank {raw : List Char} (ho : p.opened.isEmpty = true) (hb : raw.all isSpace = true) :
      Takes p start (.text raw) p
  | text {raw content : List Char} (ho : p.opened.isEmpty = false) (hc : endsCdata raw = false)
      (hd : data? raw = some content) : Takes p start (.text raw) (p.addText start raw content)
  | cdata {content : List Char} (ho : p.opened.isEmpty = false) :
      Takes p start (.cdata content)
        (p.addText start (Piece.cdata content).chars (cdataText content))
  | comment {content : List Char} (hc : hasDoubleHyphen content = false) :
      Takes p start (.comment content) (p.add .aside)
  | instruction {content : List Char} (hc : isInstruction content = true) :
      Takes p start (.instruction content) (p.add .aside)
  | tag {content : List Char} {tag : Tag} {q : Progress} (ht : Tag.read? content = some tag)
      (hq : p.TakesTag start tag q) : Takes p start (.tag content) q

/-- **A piece is taken in by one of these rules.** -/
theorem addPiece?_eq_some_iff {p q : Progress} {start : Nat} {piece : Piece} :
    p.addPiece? start piece = some q ↔ p.Takes start piece q := by
  constructor
  · intro h
    cases piece with
    | text raw =>
      rw [addPiece?] at h
      split at h
      · next ho =>
        split at h
        · next hb => exact Option.some.inj h ▸ .blank ho hb
        · cases h
      · next ho =>
        split at h
        · cases h
        · next hc =>
          obtain ⟨content, hd, rfl⟩ := Option.map_eq_some_iff.mp h
          exact .text (eq_false_of_ne_true ho) (eq_false_of_ne_true hc) hd
    | cdata content =>
      rw [addPiece?] at h
      split at h
      · cases h
      · next ho => exact Option.some.inj h ▸ .cdata (eq_false_of_ne_true ho)
    | comment content =>
      rw [addPiece?] at h
      split at h
      · cases h
      · next hc => exact Option.some.inj h ▸ .comment (eq_false_of_ne_true hc)
    | instruction content =>
      rw [addPiece?] at h
      split at h
      · next hc => exact Option.some.inj h ▸ .instruction hc
      · cases h
    | tag content =>
      obtain ⟨tag, ht, hq⟩ := Option.bind_eq_some_iff.mp h
      exact .tag ht (addTag?_eq_some_iff.mp hq)
  · intro h
    cases h with
    | blank ho hb => rw [addPiece?, if_pos ho, if_pos hb]
    | text ho hc hd =>
      rw [addPiece?, if_neg (ne_true_of_eq_false ho), if_neg (ne_true_of_eq_false hc), hd,
        Option.map_some]
    | cdata ho => rw [addPiece?, if_neg (ne_true_of_eq_false ho)]
    | comment hc => rw [addPiece?, if_neg (ne_true_of_eq_false hc)]
    | instruction hc => rw [addPiece?, if_pos hc]
    | tag ht hq => rw [addPiece?, ht, Option.bind_some, addTag?_eq_some_iff.mpr hq]

/-- **A piece adds at most one item, at its own offset.** -/
theorem extends_addPiece? {p q : Progress} {start : Nat} {piece : Piece}
    (h : p.addPiece? start piece = some q) : Extends start piece p.items q.items := by
  have haside : Extends start piece p.items (p.add .aside).items :=
    .same ((items_add p .aside).trans (List.Subperm.refl _))
  cases addPiece?_eq_some_iff.mp h with
  | blank ho hb => exact .same (List.Subperm.refl _)
  | text ho hc hd => exact extends_addText (.text hd) (List.isEmpty_eq_false_iff.mp ho)
  | @cdata content ho => exact extends_addText (.cdata content) (List.isEmpty_eq_false_iff.mp ho)
  | comment hc => exact haside
  | instruction hc => exact haside
  | tag ht hq => exact hq.extends _

/-! ## Whole documents -/

/-- What holds of the items of a document when the next piece begins at the given offset. -/
structure Sound (pieces : List (Nat × Piece)) (next : Nat) (items : List Item) : Prop where
  /-- No two items begin at the same offset. -/
  nodup : (items.map Item.start).Nodup
  /-- All items begin before the next piece. -/
  lt : ∀ item ∈ items, item.start < next
  /-- Each element begins where a piece does. -/
  element : ∀ s, .element s ∈ items → ∃ piece, (s, piece) ∈ pieces
  /-- Each text begins where a piece does that is its source, and says at least what this piece
  says. -/
  text : ∀ s source content, .text s source content ∈ items →
    ∃ piece said more, (s, piece) ∈ pieces ∧ source = piece.chars ∧ piece.Says said ∧
      content = said ++ more

namespace Sound

variable {pieces : List (Nat × Piece)} {next : Nat} {before after : List Item}

theorem of_subperm (hs : Sound pieces next before) (h : after.Subperm before) :
    Sound pieces next after where
  nodup := by
    obtain ⟨l, hperm, hsub⟩ := h
    exact (hperm.map Item.start).nodup_iff.mp (hs.nodup.sublist (hsub.map Item.start))
  lt item hi := hs.lt item (h.subset hi)
  element s hi := hs.element s (h.subset hi)
  text s source content hi := hs.text s source content (h.subset hi)

theorem mono {next' : Nat} (hs : Sound pieces next before) (h : next ≤ next') :
    Sound pieces next' before :=
  ⟨hs.nodup, fun item hi => (hs.lt item hi).trans_le h, hs.element, hs.text⟩

/-- A new item may begin at the place of the next piece. -/
theorem cons {item : Item} {piece : Piece} (hs : Sound pieces next before)
    (hp : (next, piece) ∈ pieces) (hstart : item.start = next)
    (htext : ∀ s source content, item = .text s source content →
      source = piece.chars ∧ piece.Says content) :
    Sound pieces (next + 1) (item :: before) where
  nodup := by
    rw [List.map_cons, List.nodup_cons]
    refine ⟨fun hm => ?_, hs.nodup⟩
    obtain ⟨i, hi, he⟩ := List.mem_map.mp hm
    have := hs.lt i hi
    omega
  lt i hi := by
    rcases List.mem_cons.mp hi with rfl | hi
    · omega
    · have := hs.lt i hi
      omega
  element s hi := by
    rcases List.mem_cons.mp hi with rfl | hi
    · obtain rfl : s = next := hstart
      exact ⟨piece, hp⟩
    · exact hs.element s hi
  text s source content hi := by
    rcases List.mem_cons.mp hi with rfl | hi
    · obtain ⟨rfl, hsays⟩ := htext s source content rfl
      obtain rfl : s = next := hstart
      exact ⟨piece, content, [], hp, rfl, hsays, (List.append_nil _).symm⟩
    · exact hs.text s source content hi

/-- A text may say more than before. -/
theorem join {s : Nat} {source content : List Char} (more : List Char)
    (hs : Sound pieces next (.text s source content :: before)) :
    Sound pieces next (.text s source (content ++ more) :: before) where
  nodup := hs.nodup
  lt item hi := by
    rcases List.mem_cons.mp hi with rfl | hi
    · exact hs.lt (.text s source content) List.mem_cons_self
    · exact hs.lt item (List.mem_cons_of_mem _ hi)
  element s' hi := by
    rcases List.mem_cons.mp hi with he | hi
    · cases he
    · exact hs.element s' (List.mem_cons_of_mem _ hi)
  text s' source' content' hi := by
    rcases List.mem_cons.mp hi with he | hi
    · obtain ⟨rfl, rfl, rfl⟩ := Item.text.inj he
      obtain ⟨piece, said, m, hp, hsource, hsays, hc⟩ :=
        hs.text s' source' content List.mem_cons_self
      exact ⟨piece, said, m ++ more, hp, hsource, hsays, by rw [hc, List.append_assoc]⟩
    · exact hs.text s' source' content' (List.mem_cons_of_mem _ hi)

/-- A piece keeps what holds of the items. -/
theorem of_extends {piece : Piece} (hs : Sound pieces next before) (hp : (next, piece) ∈ pieces)
    (h : Extends next piece before after) : Sound pieces (next + 1) after := by
  cases h with
  | same h => exact (hs.of_subperm h).mono (Nat.le_succ _)
  | element h =>
    refine (hs.cons hp rfl ?_).of_subperm h
    intro s source content he
    cases he
  | text said hsays h =>
    refine (hs.cons hp rfl ?_).of_subperm h
    intro s source content he
    obtain ⟨-, rfl, rfl⟩ := Item.text.inj he
    exact ⟨rfl, hsays⟩
  | joined s source content more rest hb h =>
    exact (((hs.of_subperm hb.symm.subperm).join more).of_subperm h).mono (Nat.le_succ _)

end Sound

/-- The items that a piece leaves begin where items began before, or at its own offset. -/
theorem start_mem_of_extends {next : Nat} {piece : Piece} {before after : List Item} {s : Nat}
    (h : Extends next piece before after) (hs : s ∈ after.map Item.start) :
    s ∈ before.map Item.start ∨ s = next := by
  obtain ⟨item, hi, rfl⟩ := List.mem_map.mp hs
  cases h with
  | same h => exact Or.inl (List.mem_map_of_mem (h.subset hi))
  | element h =>
    rcases List.mem_cons.mp (h.subset hi) with rfl | hb
    · exact Or.inr rfl
    · exact Or.inl (List.mem_map_of_mem hb)
  | text said hsays h =>
    rcases List.mem_cons.mp (h.subset hi) with rfl | hb
    · exact Or.inr rfl
    · exact Or.inl (List.mem_map_of_mem hb)
  | joined s source content more rest hb h =>
    left
    rcases List.mem_cons.mp (h.subset hi) with rfl | hr
    · have hm := hb.symm.subset (List.mem_cons_self (a := Item.text s source content))
      exact List.mem_map.mpr ⟨.text s source content, hm, rfl⟩
    · exact List.mem_map_of_mem (hb.symm.subset (List.mem_cons_of_mem _ hr))

/-- Items begin where items began before, or where a further piece begins. -/
theorem start_mem_of_addPieces? {p q : Progress} {start s : Nat} {ps : List Piece}
    (h : p.addPieces? start ps = some q) (hs : s ∈ q.items.map Item.start) :
    s ∈ p.items.map Item.start ∨ start ≤ s := by
  induction ps generalizing p start with
  | nil =>
    rw [← Option.some.inj h] at hs
    exact Or.inl hs
  | cons piece ps ih =>
    obtain ⟨p₁, h₁, hrest⟩ := Option.bind_eq_some_iff.mp h
    rcases ih hrest with hs₁ | hle
    · rcases start_mem_of_extends (extends_addPiece? h₁) hs₁ with hp | rfl
      · exact Or.inl hp
      · exact Or.inr (le_refl _)
    · exact Or.inr ((Nat.le_add_right _ _).trans hle)

/-- **What holds of the items holds of those of the whole document.** -/
theorem Sound.addPieces? {pieces : List (Nat × Piece)} {p q : Progress} {start : Nat}
    {ps : List Piece} (hpos : ∀ piece ∈ ps, 0 < piece.chars.length)
    (hsub : ∀ place ∈ Piece.placed start ps, place ∈ pieces)
    (hs : Sound pieces start p.items) (h : p.addPieces? start ps = some q) :
    ∃ stop, Sound pieces stop q.items := by
  induction ps generalizing p start with
  | nil =>
    rw [← Option.some.inj h]
    exact ⟨start, hs⟩
  | cons piece ps ih =>
    obtain ⟨p₁, h₁, hrest⟩ := Option.bind_eq_some_iff.mp h
    have h₁' := hs.of_extends (hsub _ List.mem_cons_self) (extends_addPiece? h₁)
    have hlen := hpos piece List.mem_cons_self
    exact ih (fun q hq => hpos q (List.mem_cons_of_mem _ hq))
      (fun place hp => hsub place (List.mem_cons_of_mem _ hp)) (h₁'.mono (by omega)) hrest

end Progress

end MavenUpgrade.Xml

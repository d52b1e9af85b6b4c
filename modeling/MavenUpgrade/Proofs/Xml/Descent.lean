import Mathlib
import MavenUpgrade.Pom.Declaration
import MavenUpgrade.Proofs.Xml.Rereading

/-!
# The way to a node

In a tree whose items begin at different offsets, where a node begins tells which nodes stand above
it (`Node.Leads.unique`). A place in the text that some text of the tree says tells which text this
is (`Layout.start_unique`).
-/

namespace MavenUpgrade.Xml

namespace Node

/-- A way down from a node to another one; the list holds the nodes above the latter, the topmost
first. -/
inductive Leads : Node → List Node → Node → Prop where
  | here (node : Node) : Leads node [] node
  | down {node child target : Node} {above : List Node} (hc : child ∈ node.children)
      (h : Leads child above target) : Leads node (node :: above) target

/-- A way down to a node and a way down from it make a way. -/
theorem Leads.trans {node middle target : Node} {above between : List Node}
    (h : Leads node above middle) (h' : Leads middle between target) :
    Leads node (above ++ between) target := by
  induction h with
  | here => exact h'
  | down hc h ih => exact .down hc (ih h')

/-- A way is continued by a child of the node that it leads to. -/
theorem Leads.snoc {node child target : Node} {above : List Node} (h : Leads node above target)
    (hc : child ∈ target.children) : Leads node (above ++ [target]) child :=
  h.trans (.down hc (.here child))

/-- The items of a node are its own and those of its children. -/
theorem mem_items_of_mem_children {node child : Node} (hc : child ∈ node.children) {item : Item}
    (hi : item ∈ child.items) : item ∈ node.items := by
  cases node with
  | element start name children => exact List.mem_cons_of_mem _ (mem_itemsOf hc hi)
  | text => cases hc
  | aside => cases hc

/-- The items of a node are among those of the nodes above it. -/
theorem Leads.mem_items {node target : Node} {above : List Node} (h : Leads node above target)
    {item : Item} (hi : item ∈ target.items) : item ∈ node.items := by
  induction h with
  | here node => exact hi
  | down hc h ih => exact mem_items_of_mem_children hc (ih hi)

/-- A node that is an item begins where this item does. -/
def Begins (node : Node) (s : Nat) : Prop :=
  ∃ item, node.items.head? = some item ∧ item.start = s

theorem begins_text (s : Nat) (source content : List Char) :
    (text s source content).Begins s := ⟨_, rfl, rfl⟩

theorem Begins.mem {node : Node} {s : Nat} (h : node.Begins s) :
    s ∈ node.items.map Item.start := by
  obtain ⟨item, hi, rfl⟩ := h
  exact List.mem_map_of_mem (List.mem_of_mem_head? (Option.mem_def.mpr hi))

/-- Where a node begins its children do not. -/
theorem Begins.not_mem_child {node child : Node} {s : Nat} (h : node.Begins s)
    (hnd : (node.items.map Item.start).Nodup) (hc : child ∈ node.children) :
    s ∉ child.items.map Item.start := by
  intro hs
  cases node with
  | element start name children =>
    obtain ⟨item, hi, rfl⟩ := h
    obtain rfl := Option.some.inj hi
    obtain ⟨inner, hinner, he⟩ := List.mem_map.mp hs
    rw [items, List.map_cons, List.nodup_cons] at hnd
    exact hnd.1 (List.mem_map.mpr ⟨inner, mem_itemsOf hc hinner, he⟩)
  | text => cases hc
  | aside => cases hc

theorem nodup_itemsOf {node : Node} (hnd : (node.items.map Item.start).Nodup) :
    ((itemsOf node.children).map Item.start).Nodup := by
  cases node with
  | element start name children => exact (List.nodup_cons.mp hnd).2
  | text => exact List.nodup_nil
  | aside => exact List.nodup_nil

end Node

/-- Two trees of a list that share the offset of an item are the same. -/
theorem eq_of_shared_start {nodes : List Node} {m n : Node} {s : Nat}
    (hnd : ((itemsOf nodes).map Item.start).Nodup) (hm : m ∈ nodes) (hn : n ∈ nodes)
    (hms : s ∈ m.items.map Item.start) (hns : s ∈ n.items.map Item.start) : m = n := by
  induction nodes with
  | nil => cases hm
  | cons node nodes ih =>
    rw [itemsOf, List.map_append, List.nodup_append] at hnd
    obtain ⟨-, hnd', hdisjoint⟩ := hnd
    have hrest {k : Node} (hk : k ∈ nodes) (hks : s ∈ k.items.map Item.start) :
        s ∈ (itemsOf nodes).map Item.start := by
      obtain ⟨item, hi, rfl⟩ := List.mem_map.mp hks
      exact List.mem_map_of_mem (mem_itemsOf hk hi)
    rcases List.mem_cons.mp hm with rfl | hm' <;> rcases List.mem_cons.mp hn with rfl | hn'
    · rfl
    · exact absurd rfl (hdisjoint s hms s (hrest hn' hns))
    · exact absurd rfl (hdisjoint s hns s (hrest hm' hms))
    · exact ih hnd' hm' hn'

theorem nodup_items_of_mem {nodes : List Node} {n : Node}
    (hnd : ((itemsOf nodes).map Item.start).Nodup) (hn : n ∈ nodes) :
    (n.items.map Item.start).Nodup := by
  induction nodes with
  | nil => cases hn
  | cons node nodes ih =>
    rw [itemsOf, List.map_append, List.nodup_append] at hnd
    rcases List.mem_cons.mp hn with rfl | hn
    · exact hnd.1
    · exact ih hnd.2.1 hn

/-- **Where a node begins tells the way to it.** -/
theorem Node.Leads.unique {root m n : Node} {p q : List Node} {s : Nat}
    (hnd : (root.items.map Item.start).Nodup) (hp : Leads root p m) (hq : Leads root q n)
    (hm : m.Begins s) (hn : n.Begins s) : p = q ∧ m = n := by
  have above {node child target : Node} {path : List Node} (hc : child ∈ node.children)
      (h : Leads child path target) (ht : target.Begins s) : s ∈ child.items.map Item.start := by
    obtain ⟨item, hi, rfl⟩ := List.mem_map.mp ht.mem
    exact List.mem_map_of_mem (h.mem_items hi)
  induction hp generalizing q with
  | here node =>
    cases hq with
    | here => exact ⟨rfl, rfl⟩
    | down hc h => exact absurd (above hc h hn) (hm.not_mem_child hnd hc)
  | down hc h ih =>
    cases hq with
    | here => exact absurd (above hc h hm) (hn.not_mem_child hnd hc)
    | down hc' h' =>
      have hchildren := nodup_itemsOf hnd
      obtain rfl := eq_of_shared_start hchildren hc hc' (above hc h hm) (above hc' h' hn)
      obtain ⟨rfl, rfl⟩ := ih (nodup_items_of_mem hchildren hc) h' hm
      exact ⟨rfl, rfl⟩

/-! ## Places inside of texts -/

/-- Two texts of a document whose middles begin at the same place are one. -/
theorem Layout.start_unique {cs : List Char} {root : Node} {head : List Char}
    {pieces : List Piece} (hl : Layout cs root head pieces) {s s' : Nat}
    {source source' content content' : List Char} (hi : .text s source content ∈ root.items)
    (hi' : .text s' source' content' ∈ root.items) (hne : Text.trim source ≠ [])
    (hne' : Text.trim source' ≠ [])
    (h : s + (Text.leadingBlanks source).length = s' + (Text.leadingBlanks source').length) :
    s = s' := by
  obtain ⟨stop, hs⟩ := hl.sound
  obtain ⟨piece, -, -, hp, rfl, -⟩ := hs.text s source content hi
  obtain ⟨piece', -, -, hp', rfl, -⟩ := hs.text s' source' content' hi'
  have hlen := Text.length_eq piece.chars
  have hlen' := Text.length_eq piece'.chars
  have hpos := List.length_pos_of_ne_nil hne
  have hpos' := List.length_pos_of_ne_nil hne'
  have hx : s ≤ s + (Text.leadingBlanks piece.chars).length ∧
      s + (Text.leadingBlanks piece.chars).length < s + piece.chars.length := by omega
  have hx' : s' ≤ s + (Text.leadingBlanks piece.chars).length ∧
      s + (Text.leadingBlanks piece.chars).length < s' + piece'.chars.length := by omega
  exact (Piece.placed_unique hp hp' hx hx').1

end MavenUpgrade.Xml

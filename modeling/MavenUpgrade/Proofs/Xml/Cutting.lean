import Mathlib
import MavenUpgrade.Xml.Piece

/-!
# How a text is cut

Where a piece of markup ends does not depend on what follows it (`isMarkup_of_markup?`), and
character data ends where markup begins. So the pieces of a text are known by themselves: a list
of pieces in which all markup is whole and no two pieces of character data meet is what its
characters are cut into (`cut?_flatMap`).
-/

namespace MavenUpgrade.Xml

/-! ## Marks -/

/-- The first occurrence of a mark does not depend on what follows it. -/
theorem cutAt?_append {mark cs before after : List Char}
    (h : cutAt? mark cs = some (before, after)) (hm : mark ≠ []) (rest : List Char) :
    cutAt? mark (before ++ mark ++ rest) = some (before, rest) := by
  induction cs generalizing before with
  | nil =>
    rw [cutAt?, if_neg (by rwa [List.isEmpty_iff])] at h
    cases h
  | cons c cs ih =>
    rw [cutAt?] at h
    split at h
    · obtain ⟨rfl, -⟩ := Prod.mk.inj (Option.some.inj h)
      obtain ⟨m, ms, rfl⟩ := List.exists_cons_of_ne_nil hm
      show cutAt? (m :: ms) (m :: (ms ++ rest)) = _
      rw [cutAt?, if_pos]
      · show some ([], List.drop (m :: ms).length ((m :: ms) ++ rest)) = _
        rw [List.drop_left]
      · exact List.isPrefixOf_iff_prefix.mpr (List.prefix_append (m :: ms) rest)
    · next hp =>
      obtain ⟨⟨b, a⟩, hc, he⟩ := Option.map_eq_some_iff.mp h
      obtain ⟨rfl, rfl⟩ : c :: b = before ∧ a = after := by simpa using he
      show cutAt? mark (c :: (b ++ mark ++ rest)) = _
      rw [cutAt?, if_neg, ih hc, Option.map_some]
      -- a mark at this place would lie in what stands before the end of the first occurrence
      intro hp'
      refine hp (List.isPrefixOf_iff_prefix.mpr ?_)
      have hlong : mark <+: (c :: b) ++ mark :=
        List.prefix_of_prefix_length_le (List.isPrefixOf_iff_prefix.mp hp')
          (List.prefix_append (c :: b ++ mark) rest) (by
            rw [List.length_append]
            exact Nat.le_add_left _ _)
      rw [eq_of_cutAt? hc]
      exact hlong.trans (List.prefix_append (c :: b ++ mark) a)

/-- The end of a tag does not depend on what follows it. -/
theorem cutTag?_append {quote : Option Char} {cs content after : List Char}
    (h : cutTag? quote cs = some (content, after)) (rest : List Char) :
    cutTag? quote (content ++ '>' :: rest) = some (content, rest) := by
  induction cs generalizing quote content with
  | nil => cases h
  | cons c cs ih =>
    rw [cutTag?] at h
    split at h
    · next hc =>
      obtain ⟨rfl, -⟩ := Prod.mk.inj (Option.some.inj h)
      show cutTag? quote ('>' :: rest) = _
      rw [cutTag?, if_pos ⟨hc.1, rfl⟩]
    · next hc =>
      obtain ⟨⟨b, a⟩, hb, he⟩ := Option.map_eq_some_iff.mp h
      obtain ⟨rfl, rfl⟩ : c :: b = content ∧ a = after := by simpa using he
      rw [List.cons_append, cutTag?, if_neg hc]
      show (cutTag? _ (b ++ '>' :: rest)).map _ = _
      rw [ih hb]
      rfl

/-- A mark without a closing bracket that a text begins with does not reach beyond the first
one. -/
theorem prefix_of_prefix_bracket {mark cs : List Char} {after : List Char} (hm : '>' ∉ mark)
    (h : mark <+: cs ++ '>' :: after) : mark <+: cs := by
  induction cs generalizing mark with
  | nil =>
    cases mark with
    | nil => exact List.nil_prefix
    | cons m ms =>
      obtain ⟨he, -⟩ := List.cons_prefix_cons.mp h
      exact absurd (he ▸ List.mem_cons_self) hm
  | cons c cs ih =>
    cases mark with
    | nil => exact List.nil_prefix
    | cons m ms =>
      obtain ⟨he, ht⟩ := List.cons_prefix_cons.mp h
      exact List.cons_prefix_cons.mpr ⟨he, ih (fun hms => hm (List.mem_cons_of_mem _ hms)) ht⟩

namespace Piece

/-! ## Whole markup -/

/-- A piece of markup is found at the start of every text that begins with it. -/
def IsMarkup (p : Piece) : Prop :=
  ∀ rest, markup? (p.chars ++ rest) = some (p, rest)

/-- What begins with one mark does not begin with another one that differs in it. -/
theorem not_isPrefixOf_append {mark opening rest : List Char}
    (h : (opening.take mark.length ≠ mark)) (hl : mark.length ≤ opening.length) :
    ¬ mark.isPrefixOf (opening ++ rest) = true := by
  rw [List.isPrefixOf_iff_prefix]
  intro hp
  have hp' := List.prefix_of_prefix_length_le hp (List.prefix_append opening rest) hl
  exact h (List.prefix_iff_eq_take.mp hp').symm

theorem isMarkup_comment {cs content more : List Char}
    (h : cutAt? commentClosing cs = some (content, more)) : (comment content).IsMarkup := by
  intro rest
  have happ : (comment content).chars ++ rest =
      commentOpening ++ (content ++ commentClosing ++ rest) := by simp [chars]
  rw [happ]
  unfold markup?
  rw [if_pos (List.isPrefixOf_iff_prefix.mpr (List.prefix_append _ _)), List.drop_left,
    cutAt?_append h (by decide), Option.map_some]

theorem isMarkup_cdata {cs content more : List Char}
    (h : cutAt? cdataClosing cs = some (content, more)) : (cdata content).IsMarkup := by
  intro rest
  have happ : (cdata content).chars ++ rest =
      cdataOpening ++ (content ++ cdataClosing ++ rest) := by simp [chars]
  rw [happ]
  unfold markup?
  rw [if_neg (not_isPrefixOf_append (by decide) (by decide)),
    if_pos (List.isPrefixOf_iff_prefix.mpr (List.prefix_append _ _)), List.drop_left,
    cutAt?_append h (by decide), Option.map_some]

theorem isMarkup_instruction {cs content more : List Char}
    (h : cutAt? instructionClosing cs = some (content, more)) :
    (instruction content).IsMarkup := by
  intro rest
  have happ : (instruction content).chars ++ rest =
      instructionOpening ++ (content ++ instructionClosing ++ rest) := by simp [chars]
  have hno {mark : List Char} (hm : mark.take 2 ≠ instructionOpening) (hl : 2 ≤ mark.length) :
      ¬ mark.isPrefixOf (instructionOpening ++ (content ++ instructionClosing ++ rest)) = true := by
    rw [List.isPrefixOf_iff_prefix]
    intro hp
    have h2 := List.prefix_of_prefix_length_le (List.prefix_append instructionOpening _) hp hl
    exact hm (List.prefix_iff_eq_take.mp h2).symm
  rw [happ]
  unfold markup?
  rw [if_neg (hno (by decide) (by decide)), if_neg (hno (by decide) (by decide)),
    if_pos (List.isPrefixOf_iff_prefix.mpr (List.prefix_append _ _)), List.drop_left,
    cutAt?_append h (by decide), Option.map_some]

/-- A tag is found whatever follows it. Whether other markup opens in its place is settled within
the tag, since no opening holds its closing bracket. -/
theorem isMarkup_tag {cs content more : List Char} (h : cutTag? none cs = some (content, more))
    (hcomment : ¬ commentOpening.isPrefixOf ('<' :: cs) = true)
    (hcdata : ¬ cdataOpening.isPrefixOf ('<' :: cs) = true)
    (hinstruction : ¬ instructionOpening.isPrefixOf ('<' :: cs) = true) :
    (tag content).IsMarkup := by
  intro rest
  have happ : (tag content).chars ++ rest = '<' :: (content ++ '>' :: rest) := by
    simp [chars]
  have hno {mark : List Char} (hm : '>' ∉ mark) (hp : ¬ mark.isPrefixOf ('<' :: cs) = true) :
      ¬ mark.isPrefixOf ('<' :: (content ++ '>' :: rest)) = true := by
    rw [List.isPrefixOf_iff_prefix] at hp ⊢
    intro hp'
    have hp'' : mark <+: ('<' :: content) ++ '>' :: rest := hp'
    have h' := prefix_of_prefix_bracket hm hp''
    rw [eq_of_cutTag? h] at hp
    exact hp (h'.trans (List.prefix_append ('<' :: content) ('>' :: more)))
  rw [happ, markup?, if_neg (hno (by decide) hcomment), if_neg (hno (by decide) hcdata),
    if_neg (hno (by decide) hinstruction)]
  show (cutTag? none (content ++ '>' :: rest)).map _ = _
  rw [cutTag?_append h, Option.map_some]

/-- The markup that a text begins with is whole: it is found whatever follows it. -/
theorem isMarkup_of_markup? {cs more : List Char} {p : Piece} (h : markup? cs = some (p, more)) :
    p.IsMarkup := by
  cases opens_of_markup? h with
  | comment hc => exact isMarkup_comment hc
  | cdata hc => exact isMarkup_cdata hc
  | instruction hc => exact isMarkup_instruction hc
  | tag hc hcomment hcdata hinstruction => exact isMarkup_tag hc hcomment hcdata hinstruction

/-- Whether a piece is character data. -/
def isText : Piece → Bool
  | text _ => true
  | _ => false

/-- Character data is no markup. -/
theorem isText_of_isMarkup {p : Piece} (h : p.IsMarkup) : p.isText = false := by
  have hopens := opens_of_markup? (h [])
  generalize p.chars ++ [] = cs at hopens
  cases hopens with
  | comment hc => rfl
  | cdata hc => rfl
  | instruction hc => rfl
  | tag hc hcomment hcdata hinstruction => rfl

/-- Markup begins with an opening bracket and ends with a closing one. -/
theorem exists_chars_of_isMarkup {p : Piece} (h : p.IsMarkup) :
    ∃ inner, p.chars = '<' :: inner ++ ['>'] := by
  cases p with
  | text raw => cases isText_of_isMarkup h
  | cdata content =>
    exact ⟨['!', '[', 'C', 'D', 'A', 'T', 'A', '['] ++ content ++ [']', ']'], by
      simp [chars, cdataOpening, cdataClosing]⟩
  | comment content =>
    exact ⟨['!', '-', '-'] ++ content ++ ['-', '-'], by
      simp [chars, commentOpening, commentClosing]⟩
  | instruction content =>
    exact ⟨['?'] ++ content ++ ['?'], by
      simp [chars, instructionOpening, instructionClosing]⟩
  | tag content => exact ⟨content, rfl⟩

/-! ## Lists of pieces -/

/-- What a text may be cut into: all markup is whole, and character data is not empty, holds no
markup and goes as far as it can. -/
inductive IsCut : List Piece → Prop where
  | nil : IsCut []
  | markup (p : Piece) (ps : List Piece) (hp : p.IsMarkup) (h : IsCut ps) : IsCut (p :: ps)
  | text (raw : List Char) (ps : List Piece) (hne : raw ≠ []) (hraw : '<' ∉ raw)
      (hps : ps.head?.all (!·.isText) = true) (h : IsCut ps) : IsCut (.text raw :: ps)

/-- Behind character data the text ends or markup begins. -/
theorem IsCut.flatMap_of_head? {ps : List Piece} (h : IsCut ps)
    (hps : ps.head?.all (!·.isText) = true) :
    ps.flatMap chars = [] ∨ ∃ rest, ps.flatMap chars = '<' :: rest := by
  cases h with
  | nil => exact Or.inl rfl
  | markup p ps hp h =>
    obtain ⟨inner, hi⟩ := exists_chars_of_isMarkup hp
    right
    rw [List.flatMap_cons, hi]
    exact ⟨_, rfl⟩
  | text => cases hps

/-- What a text is cut into is such a list. -/
theorem isCut_of_cut? {cs : List Char} {ps : List Piece} (h : cut? cs = some ps) : IsCut ps := by
  fun_induction cut? cs generalizing ps with
  | case1 =>
    rw [← Option.some.inj h]
    exact .nil
  | case2 rest p more hm ih =>
    obtain ⟨qs, hq, rfl⟩ := Option.map_eq_some_iff.mp h
    exact .markup p qs (isMarkup_of_markup? hm) (ih hq)
  | case3 => cases h
  | case4 c rest hc ih =>
    obtain ⟨qs, hq, rfl⟩ := Option.map_eq_some_iff.mp h
    refine .text _ qs (List.cons_ne_nil _ _) ?_ ?_ (ih hq)
    · rw [List.mem_cons, not_or]
      refine ⟨fun he => hc he.symm, fun hm => ?_⟩
      exact absurd (List.mem_takeWhile_imp hm) (by decide)
    · -- what remains is empty or begins with an opening bracket
      cases hd : rest.dropWhile (· != '<') with
      | nil =>
        rw [hd, cut?] at hq
        rw [← Option.some.inj hq]
        rfl
      | cons d ds =>
        have hd' : d = '<' := by
          have hne : rest.dropWhile (· != '<') ≠ [] := by
            rw [hd]
            exact List.cons_ne_nil _ _
          have hhead := List.head_dropWhile_not (· != '<') hne
          simpa [hd] using hhead
        rw [hd, hd', cut?, if_pos rfl] at hq
        split at hq
        · next p more hm =>
          obtain ⟨qs', -, rfl⟩ := Option.map_eq_some_iff.mp hq
          show (!p.isText) = true
          rw [isText_of_isMarkup (isMarkup_of_markup? hm)]
          rfl
        · cases hq

/-- **Such a list is what its characters are cut into.** -/
theorem cut?_flatMap {ps : List Piece} (h : IsCut ps) : cut? (ps.flatMap chars) = some ps := by
  induction h with
  | nil => rw [List.flatMap_nil, cut?]
  | markup p ps hp h ih =>
    obtain ⟨inner, hi⟩ := exists_chars_of_isMarkup hp
    have hm := hp (ps.flatMap chars)
    rw [List.flatMap_cons]
    rw [hi] at hm ⊢
    show cut? ('<' :: (inner ++ ['>'] ++ ps.flatMap chars)) = _
    rw [cut?, if_pos rfl]
    rw [show ('<' :: inner ++ ['>'] ++ ps.flatMap chars : List Char) =
      '<' :: (inner ++ ['>'] ++ ps.flatMap chars) from rfl] at hm
    split
    · next p' more hm' =>
      rw [hm] at hm'
      obtain ⟨rfl, rfl⟩ := Prod.mk.inj (Option.some.inj hm')
      rw [ih, Option.map_some]
    · next hm' =>
      rw [hm] at hm'
      cases hm'
  | text raw ps hne hraw hps h ih =>
    obtain ⟨c, rest, rfl⟩ := List.exists_cons_of_ne_nil hne
    rw [List.mem_cons, not_or] at hraw
    have hall : ∀ d ∈ rest, (d != '<') = true := by
      intro d hd
      rw [bne_iff_ne]
      rintro rfl
      exact hraw.2 hd
    -- the data ends where the next piece begins
    have hstop : ((ps.flatMap chars).takeWhile (· != '<') = []) ∧
        (ps.flatMap chars).dropWhile (· != '<') = ps.flatMap chars := by
      rcases h.flatMap_of_head? hps with he | ⟨more, he⟩
      · rw [he]
        exact ⟨rfl, rfl⟩
      · rw [he]
        exact ⟨rfl, rfl⟩
    show cut? (c :: (rest ++ ps.flatMap chars)) = _
    rw [cut?, if_neg fun he => hraw.1 he.symm, List.dropWhile_append_of_pos hall,
      List.takeWhile_append_of_pos hall, hstop.1, hstop.2, ih, Option.map_some, List.append_nil]

end Piece

end MavenUpgrade.Xml

import Mathlib
import MavenUpgrade.Proofs.Xml.Rewriting

/-!
# Reading a changed document

When new texts are put into a document that can be read, it can be read again, and its tree is the
old one with the new texts (`readDocument?_rewrite`). The order of its nodes stays the same.
-/

namespace MavenUpgrade.Xml

open Text (around leadingBlanks trim)

namespace Piece

/-! ## The pieces of the changed document -/

/-- No piece is empty. -/
theorem length_chars_pos {ps : List Piece} (h : IsCut ps) {p : Piece} (hp : p ∈ ps) :
    0 < p.chars.length := by
  induction h with
  | nil => cases hp
  | markup q qs hq _ ih =>
    rcases List.mem_cons.mp hp with rfl | hp
    · obtain ⟨inner, hi⟩ := exists_chars_of_isMarkup hq
      rw [hi]
      simp
    · exact ih hp
  | text raw qs hne _ _ _ ih =>
    rcases List.mem_cons.mp hp with rfl | hp
    · exact List.length_pos_of_ne_nil hne
    · exact ih hp

/-- Character data holds no opening bracket. -/
theorem not_mem_of_isCut {ps : List Piece} (h : IsCut ps) {raw : List Char}
    (hp : .text raw ∈ ps) : '<' ∉ raw := by
  induction h with
  | nil => cases hp
  | markup q qs hq _ ih =>
    rcases List.mem_cons.mp hp with rfl | hp
    · cases isText_of_isMarkup hq
    · exact ih hp
  | text raw' qs _ hraw _ _ ih =>
    rcases List.mem_cons.mp hp with he | hp
    · obtain rfl := Piece.text.inj he
      exact hraw
    · exact ih hp

/-- A piece is replaced by new character data, or stays. -/
theorem rewrite_cases (new : Renewal) (start : Nat) (p : Piece) :
    (∃ raw v, p = .text raw ∧ new.at? start raw = some v ∧
      p.rewrite new start = .text (around raw (v.flatMap escapeChar))) ∨
    (p.rewrite new start = p ∧ ∀ raw, p = .text raw → new.at? start raw = none) := by
  cases p with
  | text raw =>
    cases hv : new.at? start raw with
    | some v =>
      refine Or.inl ⟨raw, v, rfl, hv, ?_⟩
      rw [rewrite, hv]
    | none =>
      refine Or.inr ⟨?_, fun raw' he => ?_⟩
      · rw [rewrite, hv]
      · obtain rfl := text.inj he
        exact hv
  | _ => exact Or.inr ⟨rfl, fun raw he => by cases he⟩

/-- Character data stays character data. -/
theorem isText_rewrite (new : Renewal) (start : Nat) (p : Piece) :
    (p.rewrite new start).isText = p.isText := by
  rcases p.rewrite_cases new start with ⟨raw, v, rfl, -, he⟩ | ⟨he, -⟩ <;> rw [he]
  rfl

/-- The characters of a replaced piece. -/
theorem escaped_ne_nil {v : List Char} (h : v ≠ []) : v.flatMap escapeChar ≠ [] := by
  obtain ⟨c, rest, rfl⟩ := List.exists_cons_of_ne_nil h
  rw [List.flatMap_cons, Ne, List.append_eq_nil_iff]
  rintro ⟨hc, -⟩
  unfold escapeChar at hc
  split at hc <;> cases hc

/-- Pieces with new texts are again what their characters are cut into. -/
theorem isCut_rewriteAll {new : Renewal} {pieces : List (Nat × Piece)} {start : Nat}
    {ps : List Piece} (hfit : new.Fits pieces) (hsub : ∀ place ∈ placed start ps, place ∈ pieces)
    (h : IsCut ps) : IsCut (rewriteAll new start ps) := by
  induction h generalizing start with
  | nil => exact .nil
  | markup p ps hp h ih =>
    have hkeep : p.rewrite new start = p := by
      rcases p.rewrite_cases new start with ⟨raw, v, rfl, -, -⟩ | ⟨he, -⟩
      · cases isText_of_isMarkup hp
      · exact he
    rw [rewriteAll, hkeep]
    exact .markup p _ hp (ih fun place hm => hsub place (List.mem_cons_of_mem _ hm))
  | text raw ps hne hraw hps h ih =>
    have hrest := ih fun place hm => hsub place (List.mem_cons_of_mem _ hm)
    have hhead : (rewriteAll new (start + (text raw).chars.length) ps).head?.all (!·.isText)
        = true := by
      cases ps with
      | nil => rfl
      | cons q qs =>
        show (!(q.rewrite new _).isText) = true
        rw [isText_rewrite]
        exact hps
    rw [rewriteAll]
    rcases (text raw).rewrite_cases new start with ⟨raw', v, he, hv, hr⟩ | ⟨he, -⟩
    · obtain rfl := text.inj he
      obtain ⟨-, -, -, -, hlegible⟩ := hfit start _ v (hsub _ List.mem_cons_self) hv
      rw [hr]
      refine .text _ _ ?_ (not_mem_around_escaped (Or.inl rfl) raw v) hhead hrest
      rw [around, Ne, List.append_eq_nil_iff, List.append_eq_nil_iff]
      exact fun hn => escaped_ne_nil hlegible.ne_nil hn.1.2
    · rw [he]
      exact .text raw _ hne hraw hhead hrest

/-- Escaped characters are those of XML. -/
theorem isXmlChar_of_mem_escaped {v : List Char} (h : ∀ c ∈ v, isXmlChar c = true) {c : Char}
    (hc : c ∈ v.flatMap escapeChar) : isXmlChar c = true := by
  obtain ⟨d, hd, hm⟩ := List.mem_flatMap.mp hc
  have hall {text : List Char} (ht : text.all isXmlChar = true) (hm : c ∈ text) :
      isXmlChar c = true := List.all_eq_true.mp ht c hm
  unfold escapeChar at hm
  split at hm
  · exact hall (by decide) hm
  · exact hall (by decide) hm
  · exact hall (by decide) hm
  · rw [List.mem_singleton.mp hm]
    exact h d hd

/-- The characters of pieces with new texts are those of XML. -/
theorem isXmlChar_of_mem_rewriteAll {new : Renewal} {pieces : List (Nat × Piece)} {start : Nat}
    {ps : List Piece} (hfit : new.Fits pieces) (hsub : ∀ place ∈ placed start ps, place ∈ pieces)
    (h : ∀ c ∈ ps.flatMap chars, isXmlChar c = true) {c : Char}
    (hc : c ∈ (rewriteAll new start ps).flatMap chars) : isXmlChar c = true := by
  induction ps generalizing start with
  | nil => cases hc
  | cons p ps ih =>
    rw [List.flatMap_cons] at h
    rw [rewriteAll, List.flatMap_cons, List.mem_append] at hc
    rcases hc with hc | hc
    · rcases p.rewrite_cases new start with ⟨raw, v, rfl, hv, hr⟩ | ⟨he, -⟩
      · obtain ⟨-, -, -, -, hlegible⟩ := hfit start _ v (hsub _ List.mem_cons_self) hv
        have hraw (hm : c ∈ raw) : isXmlChar c = true := h c (List.mem_append_left _ hm)
        rw [hr] at hc
        have hc' : c ∈ leadingBlanks raw ++ v.flatMap escapeChar ++ Text.trailingBlanks raw := hc
        rw [List.mem_append, List.mem_append] at hc'
        rcases hc' with (hc' | hc') | hc'
        · exact hraw ((List.takeWhile_sublist _).subset hc')
        · exact isXmlChar_of_mem_escaped hlegible.isXmlChar hc'
        · refine hraw ?_
          rw [← Text.around_trim raw, around, List.mem_append]
          exact Or.inr hc'
      · rw [he] at hc
        exact h c (List.mem_append_left _ hc)
    · exact ih (fun place hm => hsub place (List.mem_cons_of_mem _ hm))
        (fun d hd => h d (List.mem_append_right _ hd)) hc

/-- A mark that a first piece begins with does not depend on what follows the piece. -/
theorem IsCut.prefix_head {mark : List Char} {p : Piece} {ps : List Piece} (h : IsCut (p :: ps))
    (hm : '>' ∉ mark) (hb : mark.head? = some '<') {rest : List Char}
    (hp : mark <+: p.chars ++ rest) : mark <+: p.chars := by
  obtain ⟨more, rfl⟩ := List.head?_eq_some_iff.mp hb
  cases h with
  | markup _ _ hmarkup _ =>
    obtain ⟨inner, hi⟩ := exists_chars_of_isMarkup hmarkup
    rw [hi, List.append_assoc] at hp
    rw [hi]
    exact (prefix_of_prefix_bracket hm hp).trans (List.prefix_append _ _)
  | text raw _ hne hraw =>
    obtain ⟨c, cs, rfl⟩ := List.exists_cons_of_ne_nil hne
    obtain ⟨rfl, -⟩ := List.cons_prefix_cons.mp hp
    exact absurd List.mem_cons_self hraw

/-! ## The new offsets -/

/-- The new offset of what began at an offset: that of the first piece that does not begin
before. -/
def moved (new : Renewal) (start start' : Nat) : List Piece → Nat → Nat
  | [], x => start' + (x - start)
  | p :: ps, x =>
    if x ≤ start then start'
    else moved new (start + p.chars.length) (start' + (p.rewrite new start).chars.length) ps x

theorem le_moved (new : Renewal) (start start' : Nat) (ps : List Piece) (x : Nat) :
    start' ≤ moved new start start' ps x := by
  induction ps generalizing start start' with
  | nil => exact Nat.le_add_right _ _
  | cons p ps ih =>
    rw [moved]
    split
    · exact le_refl _
    · exact (Nat.le_add_right _ _).trans (ih _ _)

theorem moved_start (new : Renewal) (start start' : Nat) (ps : List Piece) :
    moved new start start' ps start = start' := by
  cases ps with
  | nil => rw [moved, Nat.sub_self, Nat.add_zero]
  | cons p ps => rw [moved, if_pos (le_refl _)]

/-- The new offsets are those at which the pieces with the new texts begin. -/
theorem moves_moved {new : Renewal} {start start' : Nat} {ps : List Piece}
    (hpos : ∀ p ∈ ps, 0 < p.chars.length) :
    Progress.Moves new (moved new start start' ps) start ps := by
  -- the offsets of the remaining pieces are not below their own start
  have hcongr (qs : List Piece) (f g : Nat → Nat) (s : Nat) (hfg : ∀ x, s ≤ x → f x = g x)
      (h : Progress.Moves new f s qs) : Progress.Moves new g s qs := by
    induction qs generalizing s with
    | nil => trivial
    | cons q qs ih =>
      refine ⟨?_, ih _ (fun x hx => hfg x ((Nat.le_add_right _ _).trans hx)) h.2⟩
      rw [← hfg _ (le_refl s), ← hfg _ (Nat.le_add_right _ _)]
      exact h.1
  induction ps generalizing start start' with
  | nil => trivial
  | cons p ps ih =>
    have hp := hpos p List.mem_cons_self
    have htail (x : Nat) (hx : start + p.chars.length ≤ x) :
        moved new (start + p.chars.length) (start' + (p.rewrite new start).chars.length) ps x =
          moved new start start' (p :: ps) x := by
      rw [moved, if_neg (by omega)]
    refine ⟨?_, hcongr ps _ _ _ htail (ih fun q hq => hpos q (List.mem_cons_of_mem _ hq))⟩
    rw [← htail _ (le_refl _), moved_start, moved_start]

/-- The pieces keep their order. -/
theorem moved_lt_moved {new : Renewal} {start start' x y : Nat} {ps : List Piece} {p : Piece}
    (hpos : ∀ p ∈ ps, 0 < p.chars.length)
    (hpos' : ∀ p ∈ rewriteAll new start ps, 0 < p.chars.length) (hx : (x, p) ∈ placed start ps)
    (hxy : x < y) : moved new start start' ps x < moved new start start' ps y := by
  induction ps generalizing start start' with
  | nil => cases hx
  | cons q qs ih =>
    have hq := hpos q List.mem_cons_self
    have hq' := hpos' (q.rewrite new start) List.mem_cons_self
    rcases List.mem_cons.mp hx with he | hx
    · obtain ⟨rfl, rfl⟩ := Prod.mk.inj he
      rw [moved_start, moved, if_neg (by omega)]
      exact Nat.lt_of_lt_of_le (by omega) (le_moved _ _ _ _ _)
    · have hle := le_of_mem_placed hx
      rw [moved, if_neg (by omega), moved, if_neg (by omega)]
      exact ih (fun p hp => hpos p (List.mem_cons_of_mem _ hp))
        (fun p hp => hpos' p (List.mem_cons_of_mem _ hp)) hx

end Piece

/-! ## What stands before the pieces -/

/-- The pieces of a text begin behind its declaration, if it has one. -/
def afterDeclaration? (offset : Nat) (cs : List Char) : Option (Nat × List Char) :=
  if declarationOpening.isPrefixOf cs then
    match cutTag? none (cs.drop 1) with
    | some (content, rest) =>
      if isDeclaration content then some (offset + content.length + 2, rest) else none
    | none => none
  else some (offset, cs)

theorem body?_eq (cs : List Char) :
    body? cs = if cs.head? = some byteOrderMark then afterDeclaration? 1 (cs.drop 1)
      else afterDeclaration? 0 cs := by
  have hbody : body? cs = afterDeclaration? (if cs.head? = some byteOrderMark then 1 else 0)
      (if cs.head? = some byteOrderMark then cs.drop 1 else cs) := rfl
  rw [hbody]
  by_cases hm : cs.head? = some byteOrderMark
  · rw [if_pos hm, if_pos hm, if_pos hm]
  · rw [if_neg hm, if_neg hm, if_neg hm]

/-- A declaration does not depend on what follows it. -/
theorem afterDeclaration?_replace {offset start : Nat} {cs rest : List Char}
    (h : afterDeclaration? offset cs = some (start, rest)) :
    ∃ head, start = offset + head.length ∧ cs = head ++ rest ∧
      (head = [] ∨ head.head? = some '<') ∧ ∀ rest',
        (declarationOpening <+: rest' → declarationOpening <+: rest) →
          afterDeclaration? offset (head ++ rest') = some (start, rest') := by
  rw [afterDeclaration?] at h
  split at h
  · -- the declaration ends at its closing bracket, whatever follows
    next hp =>
    obtain ⟨more, rfl⟩ := List.isPrefixOf_iff_prefix.mp hp
    have hdrop : (declarationOpening ++ more).drop 1 = "?xml ".toList ++ more := rfl
    rw [hdrop] at h
    split at h
    · next content after hc =>
      split at h
      · next hd =>
        obtain ⟨rfl, rfl⟩ := Prod.mk.inj (Option.some.inj h)
        have he : declarationOpening ++ more = '<' :: content ++ '>' :: after :=
          congrArg ('<' :: ·) (eq_of_cutTag? hc)
        have hopen : declarationOpening <+: '<' :: content :=
          prefix_of_prefix_bracket (by decide) (he ▸ List.prefix_append _ _)
        refine ⟨'<' :: content ++ ['>'], ?_, ?_, Or.inr rfl, fun rest' _ => ?_⟩
        · simp [Nat.add_assoc]
        · simp [he]
        · have happ : '<' :: content ++ ['>'] ++ rest' = '<' :: (content ++ '>' :: rest') := by
            simp
          have hopen' : declarationOpening.isPrefixOf ('<' :: (content ++ '>' :: rest')) = true :=
            List.isPrefixOf_iff_prefix.mpr
              (hopen.trans (List.prefix_append ('<' :: content) ('>' :: rest')))
          rw [happ, afterDeclaration?, if_pos hopen']
          show (match cutTag? none (content ++ '>' :: rest') with
            | some (content, rest) =>
              if isDeclaration content then some (offset + content.length + 2, rest) else none
            | none => none) = _
          rw [cutTag?_append hc]
          exact if_pos hd
      · cases h
    · cases h
  · -- there is no declaration, and the new rest must not open one
    next hp =>
    obtain ⟨rfl, rfl⟩ := Prod.mk.inj (Option.some.inj h)
    refine ⟨[], rfl, rfl, Or.inl rfl, fun rest' himp => ?_⟩
    rw [List.nil_append, afterDeclaration?, if_neg]
    intro hp'
    exact hp (List.isPrefixOf_iff_prefix.mpr (himp (List.isPrefixOf_iff_prefix.mp hp')))

/-- What stands before the pieces of a document does not depend on them, as long as they begin with
the same character and not with another document declaration. -/
theorem body?_replace {cs rest : List Char} {start : Nat} (h : body? cs = some (start, rest)) :
    ∃ head, head.length = start ∧ cs = head ++ rest ∧ ∀ rest', rest'.head? = rest.head? →
      (declarationOpening <+: rest' → declarationOpening <+: rest) →
        body? (head ++ rest') = some (start, rest') := by
  rw [body?_eq] at h
  split at h
  · next hm =>
    obtain ⟨more, rfl⟩ := List.head?_eq_some_iff.mp hm
    obtain ⟨head, rfl, he, -, hreplace⟩ := afterDeclaration?_replace h
    obtain rfl : more = head ++ rest := he
    refine ⟨byteOrderMark :: head, ?_, rfl, fun rest' _ himp => ?_⟩
    · rw [List.length_cons, Nat.add_comm]
    · rw [body?_eq, if_pos (by rfl)]
      exact hreplace rest' himp
  · next hm =>
    obtain ⟨head, rfl, rfl, hhead, hreplace⟩ := afterDeclaration?_replace h
    refine ⟨head, (Nat.zero_add _).symm, rfl, fun rest' hfirst himp => ?_⟩
    -- no mark comes into being either
    have hm' : (head ++ rest').head? ≠ some byteOrderMark := by
      rcases hhead with rfl | hhead
      · rw [List.nil_append, hfirst]
        exact hm
      · rw [List.head?_append, hhead]
        show some '<' ≠ some byteOrderMark
        decide
    rw [body?_eq, if_neg hm']
    exact hreplace rest' himp

/-! ## Documents and their changed texts -/

/-- A document is laid out as what stands before its pieces, and the pieces that make its tree. -/
structure Layout (cs : List Char) (root : Node) (head : List Char) (pieces : List Piece) :
    Prop where
  text : cs = head ++ pieces.flatMap Piece.chars
  legal : ∀ c ∈ cs, isXmlChar c = true
  cut : Piece.IsCut pieces
  /-- What stands before the pieces would stand before others as well. -/
  replace : ∀ rest, rest.head? = (pieces.flatMap Piece.chars).head? →
    (declarationOpening <+: rest → declarationOpening <+: pieces.flatMap Piece.chars) →
      body? (head ++ rest) = some (head.length, rest)
  tree : Progress.addPieces? ⟨[], none⟩ head.length pieces = some ⟨[], some root⟩

/-- Every document that can be read is laid out. -/
theorem exists_layout {cs : List Char} {root : Node} (h : readDocument? cs = some root) :
    ∃ head pieces, Layout cs root head pieces := by
  rw [readDocument?] at h
  split at h
  · next hall =>
    obtain ⟨⟨start, rest⟩, hb, h⟩ := Option.bind_eq_some_iff.mp h
    obtain ⟨pieces, hc, h⟩ := Option.bind_eq_some_iff.mp h
    obtain ⟨p, hp, hr⟩ := Option.bind_eq_some_iff.mp h
    obtain ⟨head, rfl, rfl, hreplace⟩ := body?_replace hb
    have hchars := Piece.flatMap_chars_of_cut? hc
    obtain ⟨opened, root'⟩ := p
    cases opened with
    | cons e outer => cases hr
    | nil =>
      obtain rfl : root' = some root := hr
      refine ⟨head, pieces, ⟨?_, List.all_eq_true.mp hall, Piece.isCut_of_cut? hc, ?_, hp⟩⟩
      · rw [hchars]
      · rw [hchars]
        exact hreplace
  · cases h

/-- Before the first piece there are no items. -/
theorem sound_nil (places : List (Nat × Piece)) (next : Nat) :
    Progress.Sound places next (Progress.items ⟨[], none⟩) where
  nodup := List.nodup_nil
  lt _ h := by cases h
  element _ h := by cases h
  text _ _ _ h := by cases h

namespace Layout

variable {cs : List Char} {root : Node} {head : List Char} {pieces : List Piece}

/-- The places of the items of a document. -/
theorem sound (hl : Layout cs root head pieces) :
    ∃ stop, Progress.Sound (Piece.placed head.length pieces) stop root.items :=
  (sound_nil _ head.length).addPieces? (fun _ hp => Piece.length_chars_pos hl.cut hp)
    (fun _ hp => hp) hl.tree

/-- **A text that is written as it says is a piece of the document, and holds a mark of XML exactly
when this piece does not say it by itself**, but only with the pieces behind it. -/
theorem exists_piece (hl : Layout cs root head pieces) {s : Nat} {source : List Char}
    (hi : .text s source source ∈ root.items) :
    ∃ piece, (s, piece) ∈ Piece.placed head.length pieces ∧ source = piece.chars ∧
      (piece.Says piece.chars ↔ '&' ∉ source ∧ '<' ∉ source) := by
  obtain ⟨stop, hs⟩ := hl.sound
  obtain ⟨piece, said, more, hp, rfl, hsays, hmore⟩ := hs.text s source source hi
  refine ⟨piece, hp, rfl, ?_⟩
  cases hsays with
  | @text raw said hd =>
    constructor
    · intro hself
      cases hself with
      | text hself => exact ⟨not_mem_of_data?_self hself, Piece.not_mem_of_isCut hl.cut
          (Piece.mem_of_mem_placed hp)⟩
    · rintro ⟨ha, -⟩
      obtain ⟨-, rfl⟩ := plain_of_data? ha hd hmore.symm
      rw [List.append_nil] at hmore
      exact .text (hmore ▸ hd)
  | cdata content =>
    refine iff_of_false (fun hself => ?_) fun h => h.2 List.mem_cons_self
    -- the marks of a literal section are not said
    have hsaid : cdataText content = (Piece.cdata content).chars := by
      generalize (Piece.cdata content).chars = chars at hself
      cases hself
      rfl
    have hle := length_readCdata_le [] content
    rw [← cdataText, hsaid, Piece.chars, List.length_append, List.length_append,
      List.length_nil] at hle
    have hopening : 0 < cdataOpening.length := by decide
    omega

/-- New texts for plain texts of the document fit its pieces, and each of them replaces a text of
the tree. -/
theorem fits (hl : Layout cs root head pieces) {new : Renewal}
    (hnew : ∀ x v, new x = some v → IsLegible v ∧ ∃ s source, .text s source source ∈ root.items ∧
      x = s + (leadingBlanks source).length ∧ trim source ≠ [] ∧ '&' ∉ source ∧ '<' ∉ source) :
    new.Fits (Piece.placed head.length pieces) ∧
      ∀ place ∈ Piece.placed head.length pieces, (new.at? place.1 place.2.chars).isSome = true →
        place.1 ∈ root.items.map Item.start := by
  obtain ⟨stop, hs⟩ := hl.sound
  have inside {source : List Char} (s : Nat) (h : trim source ≠ []) :
      s ≤ s + (leadingBlanks source).length ∧
        s + (leadingBlanks source).length < s + source.length := by
    have := Text.length_eq source
    have := List.length_pos_of_ne_nil h
    omega
  -- a piece with a new text is the source of a text that begins where it does
  have key (start : Nat) (piece : Piece) (v : List Char)
      (hp : (start, piece) ∈ Piece.placed head.length pieces)
      (hv : new.at? start piece.chars = some v) :
      IsLegible v ∧ '&' ∉ piece.chars ∧ '<' ∉ piece.chars ∧
        .text start piece.chars piece.chars ∈ root.items ∧
        ∃ said more, piece.Says said ∧ piece.chars = said ++ more := by
    rw [Renewal.at?] at hv
    split at hv
    · cases hv
    · next ht =>
      obtain ⟨hlegible, s, source, hi, hx, hne, ha, hb⟩ := hnew _ v hv
      obtain ⟨piece', said, more, hp', rfl, hsays, hmore⟩ := hs.text s source source hi
      have hx' := inside s hne
      rw [← hx] at hx'
      obtain ⟨rfl, rfl⟩ := Piece.placed_unique hp hp' (inside start ht) hx'
      exact ⟨hlegible, ha, hb, hi, said, more, hsays, hmore⟩
  refine ⟨fun start piece v hp hv => ?_, fun ⟨start, piece⟩ hp hv => ?_⟩
  · obtain ⟨hlegible, ha, hb, -, said, more, hsays, hmore⟩ := key start piece v hp hv
    cases hsays with
    | text hd => exact ⟨_, rfl, ha, (plain_of_data? ha hd hmore.symm).1, hlegible⟩
    | cdata content => exact absurd List.mem_cons_self hb
  · obtain ⟨v, hv⟩ := Option.isSome_iff_exists.mp hv
    obtain ⟨-, -, -, hi, -⟩ := key start piece v hp hv
    exact List.mem_map.mpr ⟨_, hi, rfl⟩

/-- The first piece is outside of the tree, so that it is not replaced. -/
theorem rewrite_head {new : Renewal} {p : Piece} {ps : List Piece}
    (hl : Layout cs root head (p :: ps))
    (hbegins : (new.at? head.length p.chars).isSome = true →
      head.length ∈ root.items.map Item.start) :
    p.rewrite new head.length = p := by
  rcases p.rewrite_cases new head.length with ⟨raw, v, rfl, hv, -⟩ | ⟨he, -⟩
  · obtain ⟨q, hq, hrest⟩ := Option.bind_eq_some_iff.mp hl.tree
    obtain rfl : ⟨[], none⟩ = q := by
      cases Progress.addPiece?_eq_some_iff.mp hq with
      | blank ho hb => rfl
      | text ho hc hd => cases ho
    have hm := hbegins (by
      show (new.at? head.length raw).isSome = true
      rw [hv]
      rfl)
    -- but the piece adds no item, and the later ones begin later
    have hlen := Piece.length_chars_pos hl.cut List.mem_cons_self
    rcases Progress.start_mem_of_addPieces? hrest hm with h | h
    · cases h
    · omega
  · exact he

/-- The characters of a document with new texts are those of XML. -/
theorem isXmlChar_rewriteAll (hl : Layout cs root head pieces) {new : Renewal}
    (hfit : new.Fits (Piece.placed head.length pieces)) :
    ∀ c ∈ head ++ (Piece.rewriteAll new head.length pieces).flatMap Piece.chars,
      isXmlChar c = true := by
  have h := hl.legal
  rw [hl.text] at h
  intro c hc
  rcases List.mem_append.mp hc with hc | hc
  · exact h c (List.mem_append_left _ hc)
  · exact Piece.isXmlChar_of_mem_rewriteAll hfit (fun place hp => hp)
      (fun d hd => h d (List.mem_append_right _ hd)) hc

/-- The pieces of a document with new texts begin where those of the document do. -/
theorem body?_rewriteAll (hl : Layout cs root head pieces) {new : Renewal}
    (hbegins : ∀ place ∈ Piece.placed head.length pieces,
      (new.at? place.1 place.2.chars).isSome = true → place.1 ∈ root.items.map Item.start) :
    body? (head ++ (Piece.rewriteAll new head.length pieces).flatMap Piece.chars) =
      some (head.length, (Piece.rewriteAll new head.length pieces).flatMap Piece.chars) := by
  cases pieces with
  | nil => exact hl.replace _ rfl id
  | cons p ps =>
    -- the first piece is outside of the root, so that no new text replaces it
    have hkeep := hl.rewrite_head (hbegins _ List.mem_cons_self)
    obtain ⟨c, rest, hc⟩ := List.exists_cons_of_ne_nil
      (List.ne_nil_of_length_pos (Piece.length_chars_pos hl.cut List.mem_cons_self))
    refine hl.replace _ ?_ fun hd => ?_
    · rw [Piece.rewriteAll, hkeep, List.flatMap_cons, List.flatMap_cons, hc]
      rfl
    · rw [Piece.rewriteAll, hkeep, List.flatMap_cons] at hd
      rw [List.flatMap_cons]
      exact (hl.cut.prefix_head (by decide) rfl hd).trans (List.prefix_append _ _)

/-- **A document with new texts can be read, and its tree is the old one with the new texts.** The
nodes keep their order. -/
theorem readDocument?_rewrite (hl : Layout cs root head pieces) {new : Renewal}
    (hfit : new.Fits (Piece.placed head.length pieces))
    (hbegins : ∀ place ∈ Piece.placed head.length pieces,
      (new.at? place.1 place.2.chars).isSome = true → place.1 ∈ root.items.map Item.start) :
    ∃ shift, (∀ item ∈ root.items, ∀ x, item.start < x → shift item.start < shift x) ∧
      readDocument? (head ++ (Piece.rewriteAll new head.length pieces).flatMap Piece.chars) =
        some (root.rewrite new shift) := by
  have hpos (p : Piece) (hp : p ∈ pieces) := Piece.length_chars_pos hl.cut hp
  have hcut := Piece.isCut_rewriteAll hfit (fun place hp => hp) hl.cut
  obtain ⟨stop, hs⟩ := hl.sound
  refine ⟨Piece.moved new head.length head.length pieces, fun item hi x hx => ?_, ?_⟩
  · -- items begin where pieces do
    have hplace : ∃ p, (item.start, p) ∈ Piece.placed head.length pieces := by
      cases item with
      | element s => exact hs.element s hi
      | text s source content =>
        obtain ⟨p, -, -, hp, -⟩ := hs.text s source content hi
        exact ⟨p, hp⟩
    obtain ⟨p, hp⟩ := hplace
    exact Piece.moved_lt_moved hpos (fun q hq => Piece.length_chars_pos hcut hq) hp hx
  · have htree : Progress.addPieces? ⟨[], none⟩ head.length
          (Piece.rewriteAll new head.length pieces) =
        some ⟨[], some (root.rewrite new
          (Piece.moved new head.length head.length pieces))⟩ := by
      have hmoves : Progress.Moves new (Piece.moved new head.length head.length pieces)
          head.length pieces := Piece.moves_moved hpos
      have h := Progress.rewrite_addPieces? hfit hpos (fun place hp => hp)
        (sound_nil _ head.length) hmoves hl.tree hbegins
      rwa [Piece.moved_start] at h
    rw [readDocument?, if_pos (List.all_eq_true.mpr (hl.isXmlChar_rewriteAll hfit)),
      hl.body?_rewriteAll hbegins]
    show (Piece.cut? _).bind _ = _
    rw [Piece.cut?_flatMap hcut, Option.bind_some]
    show (Progress.addPieces? _ _ _).bind _ = _
    rw [htree]
    rfl

end Layout

end MavenUpgrade.Xml

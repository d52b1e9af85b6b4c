import Mathlib
import MavenUpgrade.Json.Printer
import MavenUpgrade.Json.Reader

/-!
# JSON values as texts

A value is read back from its text in both layouts (`Json.ofText?_compact`, `Json.ofText?_pretty`).
The two layouts differ in blanks only, so that each of them writes the same tokens
(`Json.writes_compact`, `Json.writes_prettyAt`), and the value is read back from these
(`Json.readValue_tokens`).
-/

namespace MavenUpgrade

/-! ## Strings -/

namespace JsonToken

/-- The code of a control character in four digits is read as this code. -/
theorem digitsValue?_control : ∀ n < 0x20,
    Text.digitsValue? 16 ['0', '0', Nat.digitChar (n / 16), Nat.digitChar (n % 16)] = some n := by
  decide

/-- A character that is neither a quote nor a backslash nor a control character is read as it
is. -/
theorem readString_plain {c : Char} (hquote : c ≠ '"') (hslash : c ≠ '\\')
    (hcontrol : ¬ c.toNat < 0x20) (taken rest : List Char) :
    readString (some taken) none (c :: rest) = readString (some (c :: taken)) none rest := by
  rw [readString]
  · simp [hquote, hcontrol]
  · exact fun _ _ _ _ _ he => absurd he hslash
  · exact fun _ _ he => absurd he hslash

/-- The code of a character that is no surrogate is read as this character. -/
theorem readString_code {unit : Nat} {a b c d : Char}
    (h : Text.digitsValue? 16 [a, b, c, d] = some unit) (hunit : unit < 0xD800)
    (taken rest : List Char) :
    readString (some taken) none ('\\' :: 'u' :: a :: b :: c :: d :: rest) =
      readString (some (Char.ofNat unit :: taken)) none rest := by
  have hhigh : isHigh unit = false := by
    rw [isHigh, decide_eq_false (by omega), Bool.false_and]
  have hlow : isLow unit = false := by
    rw [isLow, decide_eq_false (by omega), Bool.false_and]
  rw [readString.eq_def]
  simp only [h, hhigh, hlow, Bool.false_eq_true, if_false, Option.map_some]

/-- The escape of a character is read as this character. -/
theorem readString_escapeChar (c : Char) (taken rest : List Char) :
    readString (some taken) none (Json.escapeChar c ++ rest) =
      readString (some (c :: taken)) none rest := by
  unfold Json.escapeChar
  split
  case h_8 hquote hslash _ _ _ _ _ =>
    split
    · next hcontrol =>
      have hcode := digitsValue?_control c.toNat hcontrol
      have hread := readString_code hcode (by omega) taken rest
      rwa [Char.ofNat_toNat] at hread
    · next hcontrol => exact readString_plain hquote hslash hcontrol taken rest
  all_goals rfl

/-- The escapes of a text up to the closing quote are read as this text. -/
theorem readString_escapes (text taken rest : List Char) :
    readString (some taken) none (text.flatMap Json.escapeChar ++ '"' :: rest) =
      some (some (String.ofList (taken.reverse ++ text)), rest) := by
  induction text generalizing taken with
  | nil =>
    rw [List.append_nil]
    rfl
  | cons c text ih =>
    rw [List.flatMap_cons, List.append_assoc, readString_escapeChar, ih, List.reverse_cons,
      List.append_assoc]
    rfl

/-! ## Texts and their tokens -/

/-- What follows does not go on with a word. -/
def EndsWord (rest : List Char) : Prop :=
  ∀ c ∈ rest.head?, isWordChar c = false

/-- A text that is cut into the given tokens, whatever was read before it, and whatever follows
that does not go on with its last word. -/
def Writes (cs : List Char) (ts : List JsonToken) : Prop :=
  ∀ taken rest, EndsWord rest →
    readTokens taken (cs ++ rest) = readTokens (ts.reverse ++ taken) rest

variable {c : Char} {cs cs' : List Char} {t : JsonToken} {ts ts' : List JsonToken}

theorem endsWord_nil : EndsWord [] := by
  intro c hc
  cases hc

theorem endsWord_cons (hc : isWordChar c = false) (rest : List Char) : EndsWord (c :: rest) := by
  intro c' hc'
  rwa [← Option.some.inj hc']

/-- A word ends before a text if it ends before what the text begins with. -/
theorem EndsWord.append {rest : List Char} (h : EndsWord cs) (hrest : EndsWord rest) :
    EndsWord (cs ++ rest) := by
  cases cs with
  | nil => exact hrest
  | cons c cs => exact endsWord_cons (h c rfl) _

theorem writes_nil : Writes [] [] := fun _ _ _ => rfl

/-- Two texts in a row write the tokens of both, unless they join into one word. -/
theorem Writes.append (h : Writes cs ts) (h' : Writes cs' ts') (hends : EndsWord cs') :
    Writes (cs ++ cs') (ts ++ ts') := by
  intro taken rest hrest
  rw [List.append_assoc, h taken _ (hends.append hrest), h' _ _ hrest, List.reverse_append,
    List.append_assoc]

/-- A blank before a text writes nothing. -/
theorem Writes.blank (hc : isBlank c = true) (h : Writes cs ts) : Writes (c :: cs) ts := by
  intro taken rest hrest
  rw [List.cons_append, readTokens, if_pos hc]
  exact h taken rest hrest

theorem Writes.blanks {blanks : List Char} (hblanks : ∀ c ∈ blanks, isBlank c = true)
    (h : Writes cs ts) : Writes (blanks ++ cs) ts := by
  induction blanks with
  | nil => exact h
  | cons c blanks ih =>
    have hrest : ∀ c ∈ blanks, isBlank c = true := fun c hc => hblanks c (List.mem_cons_of_mem _ hc)
    exact (ih hrest).blank (hblanks c List.mem_cons_self)

/-- A mark is neither a blank nor a quote nor a part of a word. -/
theorem of_punctuation? (hc : punctuation? c = some t) :
    isBlank c = false ∧ c ≠ '"' ∧ isWordChar c = false := by
  unfold punctuation? at hc
  split at hc
  case h_7 => cases hc
  all_goals decide

/-- A mark before a text writes its token. -/
theorem Writes.mark (hc : punctuation? c = some t) (h : Writes cs ts) :
    Writes (c :: cs) (t :: ts) := by
  obtain ⟨hblank, hquote, -⟩ := of_punctuation? hc
  intro taken rest hrest
  rw [List.cons_append, readTokens, hblank, if_neg Bool.false_ne_true, if_neg hquote, hc]
  dsimp only
  rw [h _ rest hrest, List.reverse_cons, List.append_assoc]
  rfl

/-- A part of a word is neither a blank nor a quote nor a mark. -/
theorem of_isWordChar (hc : isWordChar c = true) :
    isBlank c = false ∧ c ≠ '"' ∧ punctuation? c = none := by
  refine ⟨?_, ?_, ?_⟩
  · by_contra hblank
    simp only [isBlank, Bool.not_eq_false, Bool.or_eq_true, beq_iff_eq] at hblank
    rcases hblank with ((rfl | rfl) | rfl) | rfl <;> exact absurd hc (by decide)
  · rintro rfl
    exact absurd hc (by decide)
  · cases hmark : punctuation? c with
    | none => rfl
    | some t =>
      rw [(of_punctuation? hmark).2.2] at hc
      cases hc

/-- A word writes its token. -/
theorem writes_word {word : List Char} (hne : word ≠ []) (hword : word.all isWordChar = true)
    (h : ofWord? word = some t) : Writes word [t] := by
  cases word with
  | nil => exact absurd rfl hne
  | cons c cs =>
    intro taken rest hrest
    rw [List.all_cons, Bool.and_eq_true, List.all_eq_true] at hword
    obtain ⟨hc, hcs⟩ := hword
    obtain ⟨hblank, hquote, hmark⟩ := of_isWordChar hc
    have htake : (cs ++ rest).takeWhile isWordChar = cs := by
      rw [List.takeWhile_append_of_pos hcs]
      cases rest with
      | nil => rw [List.takeWhile_nil, List.append_nil]
      | cons d rest =>
        rw [List.takeWhile_cons_of_neg (by rw [hrest d rfl]; exact Bool.false_ne_true),
          List.append_nil]
    have hdrop : (cs ++ rest).dropWhile isWordChar = rest := by
      rw [List.dropWhile_append_of_pos hcs]
      cases rest with
      | nil => rfl
      | cons d rest =>
        rw [List.dropWhile_cons_of_neg (by rw [hrest d rfl]; exact Bool.false_ne_true)]
    rw [List.cons_append, readTokens, hblank, if_neg Bool.false_ne_true, if_neg hquote, hmark]
    dsimp only
    rw [if_pos hc, htake, hdrop, h]
    rfl

/-- A quoted string writes its text. -/
theorem writes_quote (text : String) : Writes (Json.quote text).toList [.string text] := by
  intro taken rest _
  have hquote : (Json.quote text).toList ++ rest =
      '"' :: (text.toList.flatMap Json.escapeChar ++ '"' :: rest) := by
    simp [Json.quote]
  have hread := readString_escapes text.toList [] rest
  rw [List.reverse_nil, List.nil_append, String.ofList_toList] at hread
  rw [hquote, readTokens, if_neg (by decide), if_pos rfl]
  split
  · next text' rest' he =>
    rw [hread] at he
    obtain ⟨ht, rfl⟩ := Prod.mk.inj (Option.some.inj he)
    rw [Option.some.inj ht]
    rfl
  · next rest' he =>
    rw [hread] at he
    cases he
  · next he =>
    rw [hread] at he
    cases he

/-! ## Brackets -/

/-- Texts with commas between them write their tokens with commas between them, also where blanks
follow the commas. -/
theorem writes_intercalate (blanks : List Char) (hblanks : ∀ c ∈ blanks, isBlank c = true)
    {pieces : List (List Char)} {tokens : List (List JsonToken)}
    (h : List.Forall₂ Writes pieces tokens) :
    Writes ((',' :: blanks).intercalate pieces) ([.comma].intercalate tokens) := by
  induction h with
  | nil => exact writes_nil
  | @cons piece ts pieces tokens hpiece h ih =>
    cases h with
    | nil =>
      rw [List.intercalate_singleton, List.intercalate_singleton]
      exact hpiece
    | cons hnext h =>
      rw [List.intercalate_cons_cons, List.intercalate_cons_cons, List.append_assoc,
        List.append_assoc]
      refine hpiece.append ?_ ?_
      · exact (ih.blanks hblanks).mark rfl
      · exact endsWord_cons (by decide) _

/-- A text in brackets writes its tokens in brackets, also where blanks stand inside of these. -/
theorem writes_brackets {opening closing : Char} {first last : JsonToken}
    (before after : List Char) (hopening : punctuation? opening = some first)
    (hclosing : punctuation? closing = some last) (hbefore : ∀ c ∈ before, isBlank c = true)
    (hafter : ∀ c ∈ after, isBlank c = true) (h : Writes cs ts) :
    Writes (opening :: (before ++ (cs ++ (after ++ [closing])))) (first :: (ts ++ [last])) := by
  have hend : Writes (after ++ [closing]) [last] := (writes_nil.mark hclosing).blanks hafter
  have hends : EndsWord (after ++ [closing]) := by
    cases after with
    | nil => exact endsWord_cons (of_punctuation? hclosing).2.2 []
    | cons c after =>
      refine endsWord_cons ?_ _
      cases hword : isWordChar c with
      | false => rfl
      | true =>
        have hblank := hafter c List.mem_cons_self
        rw [(of_isWordChar hword).1] at hblank
        cases hblank
  exact ((h.append hend hends).blanks hbefore).mark hopening

end JsonToken

namespace Json

open JsonToken (Writes)

/-! ## The tokens of a value -/

/-- A text that is read as a number. -/
structure IsNumeral (literal : String) : Prop where
  ne_nil : literal.toList ≠ []
  isWord : literal.toList.all JsonToken.isWordChar = true
  isNumber : JsonToken.ofWord? literal.toList = some (.number literal)

/-- A value whose numbers are written as numbers are. -/
inductive IsProper : Json → Prop where
  | null : IsProper null
  | bool (value : Bool) : IsProper (bool value)
  | number {literal : String} (h : IsNumeral literal) : IsProper (number literal)
  | string (text : String) : IsProper (string text)
  | array {items : List Json} (h : ∀ item ∈ items, IsProper item) : IsProper (array items)
  | object {fields : List (String × Json)} (h : ∀ field ∈ fields, IsProper field.2) :
      IsProper (object fields)

mutual

/-- The tokens of a value. -/
def tokens : Json → List JsonToken
  | null => [.null]
  | bool value => [.bool value]
  | number literal => [.number literal]
  | string text => [.string text]
  | array items => .openArray :: ([.comma].intercalate (itemTokens items) ++ [.closeArray])
  | object fields => .openObject :: ([.comma].intercalate (fieldTokens fields) ++ [.closeObject])

/-- The tokens of each item of an array. -/
def itemTokens : List Json → List (List JsonToken)
  | [] => []
  | item :: items => tokens item :: itemTokens items

/-- The tokens of each field of an object. -/
def fieldTokens : List (String × Json) → List (List JsonToken)
  | [] => []
  | (name, value) :: fields => (.string name :: .colon :: tokens value) :: fieldTokens fields

end

theorem itemTokens_eq (items : List Json) : itemTokens items = items.map tokens := by
  induction items with
  | nil => rfl
  | cons item items ih => rw [itemTokens, ih, List.map_cons]

theorem fieldTokens_eq (fields : List (String × Json)) :
    fieldTokens fields = fields.map fun f => .string f.1 :: .colon :: tokens f.2 := by
  induction fields with
  | nil => rfl
  | cons field fields ih => rw [fieldTokens, ih, List.map_cons]

/-! ## Layouts -/

theorem compactItems_eq (items : List Json) : compactItems items = items.map compact := by
  induction items with
  | nil => rfl
  | cons item items ih => rw [compactItems, ih, List.map_cons]

theorem compactFields_eq (fields : List (String × Json)) :
    compactFields fields = fields.map fun f => quote f.1 ++ ":" ++ compact f.2 := by
  induction fields with
  | nil => rfl
  | cons field fields ih => rw [compactFields, ih, List.map_cons]

theorem prettyItems_eq (level : Nat) (items : List Json) :
    prettyItems level items = items.map (prettyAt level) := by
  induction items with
  | nil => rfl
  | cons item items ih => rw [prettyItems, ih, List.map_cons]

theorem prettyFields_eq (level : Nat) (fields : List (String × Json)) :
    prettyFields level fields = fields.map fun f => quote f.1 ++ ": " ++ prettyAt level f.2 := by
  induction fields with
  | nil => rfl
  | cons field fields ih => rw [prettyFields, ih, List.map_cons]

/-- A field writes its name, a colon and its value, also where a blank follows the colon. -/
theorem writes_field (name : String) {separator text : String} {ts : List JsonToken}
    (hseparator : separator = ":" ∨ separator = ": ") (h : Writes text.toList ts) :
    Writes (quote name ++ separator ++ text).toList (.string name :: .colon :: ts) := by
  rw [String.toList_append, String.toList_append, List.append_assoc]
  refine (JsonToken.writes_quote name).append ?_ ?_
  · rcases hseparator with rfl | rfl
    · exact h.mark rfl
    · exact (h.blank rfl).mark rfl
  · rcases hseparator with rfl | rfl
    · exact JsonToken.endsWord_cons (by decide) _
    · exact JsonToken.endsWord_cons (by decide) _

/-- Pieces, each of which writes its tokens. -/
def PiecesWrite (pieces : List String) (tokens : List (List JsonToken)) : Prop :=
  List.Forall₂ (fun piece ts => Writes piece.toList ts) pieces tokens

theorem PiecesWrite.of_map {α : Type} {text : α → String} {tokens : α → List JsonToken}
    {xs : List α} (h : ∀ x ∈ xs, Writes (text x).toList (tokens x)) :
    PiecesWrite (xs.map text) (xs.map tokens) := by
  rw [PiecesWrite, List.forall₂_map_left_iff, List.forall₂_map_right_iff, List.forall₂_same]
  exact h

variable {pieces : List String} {ts : List (List JsonToken)} {opening closing : String}
  {first last : JsonToken} {o c : Char}

/-- Pieces in brackets on one line write their tokens. -/
theorem writes_inline (ho : opening.toList = [o]) (hc : closing.toList = [c])
    (hopening : JsonToken.punctuation? o = some first)
    (hclosing : JsonToken.punctuation? c = some last) (h : PiecesWrite pieces ts) :
    Writes (inline opening pieces closing).toList
      (first :: ([.comma].intercalate ts ++ [last])) := by
  have hpieces : List.Forall₂ Writes (pieces.map String.toList) ts :=
    List.forall₂_map_left_iff.mpr h
  have hinner := JsonToken.writes_intercalate [] (by simp) hpieces
  have hall := JsonToken.writes_brackets [] [] hopening hclosing (by simp) (by simp) hinner
  simpa [inline, ho, hc, String.toList_intercalate] using hall

/-- A line break with an indent consists of blanks. -/
theorem isBlank_of_mem_newLine (level : Nat) :
    ∀ c ∈ (newLine level).toList, JsonToken.isBlank c = true := by
  intro c hc
  rw [newLine, String.toList_append, List.mem_append] at hc
  rcases hc with hc | hc
  · obtain rfl : c = '\n' := List.mem_singleton.mp hc
    rfl
  · rw [String.toList_ofList] at hc
    obtain rfl : c = ' ' := List.eq_of_mem_replicate hc
    rfl

/-- Pieces in brackets, each on a line of its own, write their tokens. -/
theorem writes_block (level : Nat) (ho : opening.toList = [o]) (hc : closing.toList = [c])
    (hopening : JsonToken.punctuation? o = some first)
    (hclosing : JsonToken.punctuation? c = some last) (h : PiecesWrite pieces ts) :
    Writes (block level opening pieces closing).toList
      (first :: ([.comma].intercalate ts ++ [last])) := by
  have hpieces : List.Forall₂ Writes (pieces.map String.toList) ts :=
    List.forall₂_map_left_iff.mpr h
  have hinner := JsonToken.writes_intercalate _ (isBlank_of_mem_newLine (level + 1)) hpieces
  rw [block]
  split
  · next hempty =>
    obtain rfl := List.isEmpty_iff.mp hempty
    cases h
    have hall := JsonToken.writes_brackets [] [] hopening hclosing (by simp) (by simp)
      JsonToken.writes_nil
    simpa [ho, hc] using hall
  · have hall := JsonToken.writes_brackets _ _ hopening hclosing
      (isBlank_of_mem_newLine (level + 1)) (isBlank_of_mem_newLine level) hinner
    simpa [ho, hc, String.toList_intercalate] using hall

theorem writes_null : Writes "null".toList [.null] :=
  JsonToken.writes_word (by decide) (by decide) (by decide)

theorem writes_bool (value : Bool) :
    Writes (if value then "true" else "false").toList [.bool value] := by
  cases value with
  | true => exact JsonToken.writes_word (by decide) (by decide) (by decide)
  | false => exact JsonToken.writes_word (by decide) (by decide) (by decide)

/-- **A value on one line writes its tokens.** -/
theorem writes_compact {v : Json} (h : v.IsProper) : Writes v.compact.toList v.tokens := by
  induction h with
  | null => exact writes_null
  | bool value => exact writes_bool value
  | number h => exact JsonToken.writes_word h.ne_nil h.isWord h.isNumber
  | string text => exact JsonToken.writes_quote text
  | array h ih =>
    rw [compact, tokens, compactItems_eq, itemTokens_eq]
    exact writes_inline rfl rfl rfl rfl (.of_map ih)
  | object h ih =>
    rw [compact, tokens, compactFields_eq, fieldTokens_eq]
    refine writes_inline rfl rfl rfl rfl (.of_map fun field hfield => ?_)
    exact writes_field field.1 (Or.inl rfl) (ih field hfield)

/-- **A value laid out over lines writes its tokens.** -/
theorem writes_prettyAt {v : Json} (h : v.IsProper) (level : Nat) :
    Writes (prettyAt level v).toList v.tokens := by
  induction h generalizing level with
  | null => exact writes_null
  | bool value => exact writes_bool value
  | number h => exact JsonToken.writes_word h.ne_nil h.isWord h.isNumber
  | string text => exact JsonToken.writes_quote text
  | array h ih =>
    rw [prettyAt, tokens, prettyItems_eq, itemTokens_eq]
    exact writes_block level rfl rfl rfl rfl (.of_map fun item hitem => ih item hitem _)
  | object h ih =>
    rw [prettyAt, tokens, prettyFields_eq, fieldTokens_eq]
    refine writes_block level rfl rfl rfl rfl (.of_map fun field hfield => ?_)
    exact writes_field field.1 (Or.inr rfl) (ih field hfield _)

/-! ## Reading back -/

/-- A reader returns a value and the tokens that follow it. -/
def Returns {α : Type} {ts : List JsonToken} (read : Read α ts) (value : α)
    (rest : List JsonToken) : Prop :=
  ∃ h, read = some (value, ⟨rest, h⟩)

variable {item : Json} {items : List Json} {field : String × Json} {fields : List (String × Json)}
  {read more rest : List JsonToken}

theorem readItems_last (h : Returns (readValue read) item (.closeArray :: rest)) :
    Returns (readItems read) [item] rest := by
  obtain ⟨hlt, h⟩ := h
  rw [readItems, h]
  exact ⟨_, rfl⟩

theorem readItems_more (h : Returns (readValue read) item (.comma :: more))
    (hmore : Returns (readItems more) items rest) :
    Returns (readItems read) (item :: items) rest := by
  obtain ⟨hlt, h⟩ := h
  obtain ⟨hlt', hmore⟩ := hmore
  rw [readItems, h]
  dsimp only
  rw [hmore]
  exact ⟨_, rfl⟩

theorem readFields_last (h : Returns (readValue read) field.2 (.closeObject :: rest)) :
    Returns (readFields (.string field.1 :: .colon :: read)) (some [field]) rest := by
  obtain ⟨hlt, h⟩ := h
  rw [readFields, readName]
  dsimp only
  rw [h]
  exact ⟨_, rfl⟩

theorem readFields_more (h : Returns (readValue read) field.2 (.comma :: more))
    (hmore : Returns (readFields more) (some fields) rest) :
    Returns (readFields (.string field.1 :: .colon :: read)) (some (field :: fields)) rest := by
  obtain ⟨hlt, h⟩ := h
  obtain ⟨hlt', hmore⟩ := hmore
  rw [readFields, readName]
  dsimp only
  rw [h]
  dsimp only
  rw [hmore]
  exact ⟨_, rfl⟩

theorem readValue_array (hfirst : read.head? ≠ some .closeArray)
    (h : Returns (readItems read) items rest) :
    Returns (readValue (.openArray :: read)) (array items) rest := by
  obtain ⟨hlt, h⟩ := h
  rw [readValue]
  · rw [h]
    exact ⟨_, rfl⟩
  · rintro more rfl
    exact hfirst rfl

theorem readValue_object (hfirst : read.head? ≠ some .closeObject)
    (h : Returns (readFields read) (some fields) rest) :
    Returns (readValue (.openObject :: read)) (object fields) rest := by
  obtain ⟨hlt, h⟩ := h
  rw [readValue]
  · rw [h]
    exact ⟨_, rfl⟩
  · rintro more rfl
    exact hfirst rfl

/-- A value that is read from its tokens, whatever follows them. -/
def IsReadBack (v : Json) : Prop :=
  ∀ rest, Returns (readValue (v.tokens ++ rest)) v rest

/-- Items that are read back by themselves are read back up to the end of their array. -/
theorem readItems_tokens (h : ∀ i ∈ item :: items, i.IsReadBack) (rest : List JsonToken) :
    Returns (readItems ([.comma].intercalate ((item :: items).map tokens) ++ .closeArray :: rest))
      (item :: items) rest := by
  induction items generalizing item with
  | nil =>
    rw [List.map_singleton, List.intercalate_singleton]
    exact readItems_last (h item List.mem_cons_self _)
  | cons next items ih =>
    have hmore := ih fun i hi => h i (List.mem_cons_of_mem _ hi)
    rw [List.map_cons] at hmore
    rw [List.map_cons, List.map_cons, List.intercalate_cons_cons, List.append_assoc,
      List.append_assoc]
    exact readItems_more (h item List.mem_cons_self _) hmore

/-- Fields whose values are read back by themselves are read back up to the end of their object. -/
theorem readFields_tokens (h : ∀ f ∈ field :: fields, f.2.IsReadBack) (rest : List JsonToken) :
    Returns (readFields ([.comma].intercalate ((field :: fields).map fun f =>
        .string f.1 :: .colon :: tokens f.2) ++ .closeObject :: rest))
      (some (field :: fields)) rest := by
  induction fields generalizing field with
  | nil =>
    rw [List.map_singleton, List.intercalate_singleton]
    exact readFields_last (h field List.mem_cons_self _)
  | cons next fields ih =>
    have hmore := ih fun f hf => h f (List.mem_cons_of_mem _ hf)
    rw [List.map_cons] at hmore
    rw [List.map_cons, List.map_cons, List.intercalate_cons_cons, List.append_assoc,
      List.append_assoc]
    exact readFields_more (h field List.mem_cons_self _) hmore

/-- The tokens of a value do not begin with the end of an array. -/
theorem head?_tokens_ne (v : Json) (rest : List JsonToken) :
    (v.tokens ++ rest).head? ≠ some .closeArray := by
  cases v <;> simp [tokens]

/-- Neither do those of items with commas between them. -/
theorem head?_intercalate_ne (item : Json) (items : List Json) (rest : List JsonToken) :
    ([.comma].intercalate ((item :: items).map tokens) ++ rest).head? ≠ some .closeArray := by
  cases items with
  | nil =>
    rw [List.map_singleton, List.intercalate_singleton]
    exact head?_tokens_ne item rest
  | cons next items =>
    rw [List.map_cons, List.map_cons, List.intercalate_cons_cons, List.append_assoc,
      List.append_assoc]
    exact head?_tokens_ne item _

/-- The tokens of fields do not begin with the end of an object. -/
theorem head?_fields_ne (field : String × Json) (fields : List (String × Json))
    (rest : List JsonToken) :
    ([.comma].intercalate ((field :: fields).map fun f => .string f.1 :: .colon :: tokens f.2) ++
      rest).head? ≠ some .closeObject := by
  cases fields with
  | nil =>
    rw [List.map_singleton, List.intercalate_singleton]
    exact nofun
  | cons next fields =>
    rw [List.map_cons, List.map_cons, List.intercalate_cons_cons]
    exact nofun

/-- **A value is read back from its tokens.** -/
theorem readValue_tokens {v : Json} (h : v.IsProper) : v.IsReadBack := by
  intro rest
  induction h generalizing rest with
  | null =>
    rw [tokens, List.singleton_append]
    exact ⟨_, by rw [readValue]⟩
  | bool value =>
    rw [tokens, List.singleton_append]
    exact ⟨_, by rw [readValue]⟩
  | number h =>
    rw [tokens, List.singleton_append]
    exact ⟨_, by rw [readValue]⟩
  | string text =>
    rw [tokens, List.singleton_append]
    exact ⟨_, by rw [readValue]⟩
  | @array items h ih =>
    rw [tokens, itemTokens_eq, List.cons_append, List.append_assoc, List.singleton_append]
    cases items with
    | nil =>
      rw [List.map_nil, List.intercalate_nil, List.nil_append]
      exact ⟨_, by rw [readValue]⟩
    | cons item items =>
      exact readValue_array (head?_intercalate_ne item items _) (readItems_tokens ih rest)
  | @object fields h ih =>
    rw [tokens, fieldTokens_eq, List.cons_append, List.append_assoc, List.singleton_append]
    cases fields with
    | nil =>
      rw [List.map_nil, List.intercalate_nil, List.nil_append]
      exact ⟨_, by rw [readValue]⟩
    | cons field fields =>
      exact readValue_object (head?_fields_ne field fields _) (readFields_tokens ih rest)

/-- A text that writes the tokens of a value is read as this value. -/
theorem ofText?_of_writes {v : Json} {text : String} (h : v.IsProper)
    (hwrites : Writes text.toList v.tokens) : ofText? text = some v := by
  have htokens : JsonToken.ofText? text = some v.tokens := by
    have hread := hwrites [] [] JsonToken.endsWord_nil
    rw [List.append_nil, List.append_nil] at hread
    rw [JsonToken.ofText?, hread, JsonToken.readTokens, List.reverse_reverse]
  have hvalue := readValue_tokens h []
  rw [List.append_nil] at hvalue
  obtain ⟨hlt, hread⟩ := hvalue
  rw [ofText?, htokens]
  dsimp only
  rw [hread]

/-- **A value is read back from its text on one line.** -/
theorem ofText?_compact {v : Json} (h : v.IsProper) : ofText? v.compact = some v :=
  ofText?_of_writes h (writes_compact h)

/-- **A value is read back from its text over lines.** -/
theorem ofText?_pretty {v : Json} (h : v.IsProper) : ofText? v.pretty = some v :=
  ofText?_of_writes h (writes_prettyAt h 0)

end Json

end MavenUpgrade

/-!
# Text as bytes

The encoding of a text as bytes, and its decoding: bytes are decoded to a text exactly when they
encode it (`decode?_eq_some_iff`). Bytes that are no encoding are shown in pieces: each longest piece
that begins a character but does not complete one is a fault of its own, and so is each byte that
begins none.
-/

namespace MavenUpgrade.Text

/-- The bytes of a text. -/
def encode (text : String) : List UInt8 :=
  text.toList.flatMap String.utf8EncodeChar

/-- The text that bytes encode. -/
def decode? (bytes : List UInt8) : Option String :=
  String.fromUTF8? bytes.toByteArray

theorem toByteArray_encode (text : String) : (encode text).toByteArray = text.toByteArray :=
  String.utf8Encode_toList

/-- **Bytes are decoded to a text exactly when they encode it.** -/
theorem decode?_eq_some_iff {bytes : List UInt8} {text : String} :
    decode? bytes = some text ↔ bytes = encode text := by
  rw [decode?, String.fromUTF8?]
  constructor
  · intro h
    split at h
    · next hvalid =>
      have hbytes : bytes.toByteArray = (encode text).toByteArray := by
        rw [toByteArray_encode, ← Option.some.inj h]
        rfl
      have hdata := congrArg (fun array => array.data.toList) hbytes
      simpa only [List.data_toByteArray] using hdata
    · cases h
  · rintro rfl
    have hvalid : (encode text).toByteArray.IsValidUTF8 :=
      toByteArray_encode text ▸ text.isValidUTF8
    rw [dif_pos hvalid]
    exact congrArg some (String.toByteArray_inj.mp (toByteArray_encode text))

/-- The number of bytes that follow a first byte; none follow one that begins no longer
character. -/
def tailLength (first : Nat) : Nat :=
  if 0xC2 ≤ first ∧ first ≤ 0xDF then 1
  else if 0xE0 ≤ first ∧ first ≤ 0xEF then 2
  else if 0xF0 ≤ first ∧ first ≤ 0xF4 then 3
  else 0

/-- The least and the greatest byte that may come second. Each character has one encoding only,
and surrogates and what lies above the last character have none. -/
def secondRange (first : Nat) : Nat × Nat :=
  if first = 0xE0 then (0xA0, 0xBF)
  else if first = 0xED then (0x80, 0x9F)
  else if first = 0xF0 then (0x90, 0xBF)
  else if first = 0xF4 then (0x80, 0x8F)
  else (0x80, 0xBF)

/-- The bytes, at most `count` of them, that go on with a character when the first of them has to
lie in the given range. -/
def takeTail : (count : Nat) → (range : Nat × Nat) → List UInt8 → List Nat
  | count + 1, range, b :: rest =>
    if range.1 ≤ b.toNat ∧ b.toNat ≤ range.2 then b.toNat :: takeTail count (0x80, 0xBF) rest
    else []
  | _, _, _ => []

/-- The number of the character with the given bytes. -/
def combine (first : Nat) (tail : List Nat) : Nat :=
  tail.foldl (fun n b => 64 * n + (b - 0x80)) (first % Nat.pow 2 (6 - tail.length))

/-- The characters that bytes encode, with nothing in the place of a fault. -/
def decodePieces : List UInt8 → List (Option Char)
  | [] => []
  | b :: rest =>
    let first := b.toNat
    if first < 0x80 then some (Char.ofNat first) :: decodePieces rest
    else
      let tail := takeTail (tailLength first) (secondRange first) rest
      let piece :=
        if 0 < tail.length ∧ tail.length = tailLength first then
          some (Char.ofNat (combine first tail))
        else none
      piece :: decodePieces (rest.drop tail.length)
termination_by bytes => bytes.length
decreasing_by
  · simp
  · simp only [List.length_drop, List.length_cons]
    omega

/-- The character that stands for a fault. -/
def replacement : Char := '\ufffd'

/-- The text that bytes encode, with a character in the place of each fault. -/
def decodeReplacing (bytes : List UInt8) : String :=
  String.ofList ((decodePieces bytes).map (·.getD replacement))

end MavenUpgrade.Text

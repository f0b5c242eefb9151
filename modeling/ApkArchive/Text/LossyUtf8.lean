import ApkArchive.Bytes

/-!
# Reading bytes as text when they may not be UTF-8

Entry names are byte strings. As text, a well-formed UTF-8 sequence stands for its character, and
each longest run of bytes that could have begun one but does not complete it stands for U+FFFD.

    decode (encode text) = text
-/

namespace ApkArchive.LossyUtf8

/-- The bytes of a text. -/
def encode (text : String) : Bytes := text.toByteArray.data.toList

/-- The character with which a buffer begins, if it begins with a well-formed sequence. -/
def char? (bytes : Bytes) : Option Char := (bytes.take 4).toByteArray.utf8DecodeChar? 0

/-- A byte that continues a sequence. -/
def isContinuation (byte : UInt8) : Bool := 0x80 ≤ byte && byte ≤ 0xBF

/-- Whether a sequence of three or four bytes can begin with these two. -/
def canBegin (first second : UInt8) : Bool :=
  if first = 0xE0 then 0xA0 ≤ second && second ≤ 0xBF
  else if first = 0xED then 0x80 ≤ second && second ≤ 0x9F
  else if 0xE1 ≤ first && first ≤ 0xEF then isContinuation second
  else if first = 0xF0 then 0x90 ≤ second && second ≤ 0xBF
  else if first = 0xF4 then 0x80 ≤ second && second ≤ 0x8F
  else if 0xF1 ≤ first && first ≤ 0xF3 then isContinuation second
  else false

/-- How many bytes after `first` belong to the sequence that it begins but that is not completed. -/
def brokenTail (first : UInt8) : Bytes → Nat
  | [] => 0
  | [second] => if canBegin first second then 1 else 0
  | second :: third :: _ =>
    if canBegin first second then
      if 0xF0 ≤ first && isContinuation third then 2 else 1
    else 0

/-- One character of text off the front of a buffer, and what is left. -/
def next (first : UInt8) (rest : Bytes) : Char × Bytes :=
  match char? (first :: rest) with
  | some c => (c, rest.drop (c.utf8Size - 1))
  | none => ('\uFFFD', rest.drop (brokenTail first rest))

theorem length_next_le (first : UInt8) (rest : Bytes) :
    (next first rest).2.length ≤ rest.length := by
  unfold next
  split <;> simp only [List.length_drop] <;> omega

/-- Reads `bytes` and appends the text to `text`. -/
def decodeOnto (text : String) : Bytes → String
  | [] => text
  | first :: rest => decodeOnto (text.push (next first rest).1) (next first rest).2
termination_by bytes => bytes.length
decreasing_by exact Nat.lt_succ_of_le (length_next_le first rest)

/-- The text of a byte string. -/
def decode (bytes : Bytes) : String := decodeOnto "" bytes

/-! ### Reading back what was written -/

theorem char?_utf8EncodeChar_append (c : Char) (rest : Bytes) :
    char? (String.utf8EncodeChar c ++ rest) = some c := by
  have fits : (String.utf8EncodeChar c).length ≤ 4 := by
    rw [String.length_utf8EncodeChar]; exact c.utf8Size_le_four
  rw [char?, List.take_append, List.take_of_length_le fits, List.toByteArray_append]
  exact ByteArray.utf8DecodeChar?_utf8EncodeChar_append

theorem decodeOnto_utf8EncodeChar_append (text : String) (c : Char) (rest : Bytes) :
    decodeOnto text (String.utf8EncodeChar c ++ rest) = decodeOnto (text.push c) rest := by
  have size : (String.utf8EncodeChar c).length = c.utf8Size := String.length_utf8EncodeChar ..
  have read := char?_utf8EncodeChar_append c rest
  match bytes : String.utf8EncodeChar c with
  | [] => simp [bytes] at size; have := c.utf8Size_pos; omega
  | first :: tail =>
    rw [bytes, List.cons_append] at read
    have left : (tail ++ rest).drop (c.utf8Size - 1) = rest := by
      rw [bytes, List.length_cons] at size
      rw [← size, Nat.add_sub_cancel, List.drop_left]
    rw [List.cons_append, decodeOnto, next, read]
    simp only [left]

theorem decodeOnto_flatMap (text : String) (chars : List Char) :
    decodeOnto text (chars.flatMap String.utf8EncodeChar) = text ++ String.ofList chars := by
  induction chars generalizing text with
  | nil => simp [decodeOnto]
  | cons c rest ih =>
    rw [List.flatMap_cons, decodeOnto_utf8EncodeChar_append, ih]
    simp [← String.toList_inj]

theorem encode_ofList (chars : List Char) :
    encode (String.ofList chars) = chars.flatMap String.utf8EncodeChar := by
  simp [encode, List.utf8Encode]

theorem decode_encode (text : String) : decode (encode text) = text := by
  rw [← String.ofList_toList (s := text), encode_ofList, decode, decodeOnto_flatMap]
  simp

end ApkArchive.LossyUtf8

import ApkArchive.Proofs.Zip.DirectoryFaults

/-!
# What a directory record says is what its bytes say

A record comes from a buffer that was parsed or is made for a new entry, and it may be moved any
number of times. Whatever its bytes were and whatever it was said to be then, both stay the same but
for the offset of the local record, and they say the same:

    Fields.ofBytes record.encode = record.fields
    parse (record.encode ++ rest) = ok (record, rest)
-/

namespace ApkArchive.DirectoryRecord

/-- What a record says about its entry. -/
structure Fields where
  name : String
  /-- The size of the name in bytes. -/
  nameSize : Nat
  flags : UInt16
  methodCode : UInt16
  modified : Timestamp
  crc32 : UInt32
  compressedSize : UInt32
  uncompressedSize : UInt32
  localOffset : UInt32
  deriving DecidableEq, Repr

/-- What the record says. -/
def fields (record : DirectoryRecord) : Fields where
  name := record.name
  nameSize := record.nameBytes.length
  flags := record.flags
  methodCode := record.methodCode
  modified := record.modified
  crc32 := record.crc32
  compressedSize := record.compressedSize
  uncompressedSize := record.uncompressedSize
  localOffset := record.localOffset

/-- What stands at the fixed places of a record. -/
def Fields.ofBytes (bytes : Bytes) : Fields where
  name := nameIn bytes
  nameSize := bytes.field 28 2
  flags := UInt16.ofNat (bytes.field 8 2)
  methodCode := UInt16.ofNat (bytes.field 10 2)
  modified := ⟨UInt16.ofNat (bytes.field 14 2), UInt16.ofNat (bytes.field 12 2)⟩
  crc32 := UInt32.ofNat (bytes.field 16 4)
  compressedSize := UInt32.ofNat (bytes.field 20 4)
  uncompressedSize := UInt32.ofNat (bytes.field 24 4)
  localOffset := UInt32.ofNat (bytes.field 42 4)

/-- The bytes of a record for a new entry. -/
def newBytes (fields : Fields) : Bytes :=
  Bytes.word32 signature ++ (Bytes.word16 deflateVersion ++ (Bytes.word16 deflateVersion ++
    (Bytes.word16 fields.flags ++ (Bytes.word16 fields.methodCode ++
      (Bytes.word16 fields.modified.time ++ (Bytes.word16 fields.modified.date ++
        (Bytes.word32 fields.crc32 ++ (Bytes.word32 fields.compressedSize ++
          (Bytes.word32 fields.uncompressedSize ++
            (Bytes.word16 (UInt16.ofNat fields.nameSize) ++ (Bytes.zeros 12 ++
              (Bytes.word32 fields.localOffset ++ LossyUtf8.encode fields.name))))))))))))

/-- A record has come to be, with some bytes and with what it was said to be. -/
inductive Origin : DirectoryRecord → Bytes → Fields → Prop
  /-- It was parsed off the front of a buffer. -/
  | parsed {record : DirectoryRecord} {bytes rest : Bytes}
    (parsed : parse bytes = .ok (record, rest)) :
    Origin record (bytes.take (declaredSize bytes)) (Fields.ofBytes bytes)
  /-- It was made for a new entry. -/
  | made {record : DirectoryRecord} {name : String} {modified : Timestamp}
    {crc32 compressedSize uncompressedSize localOffset : UInt32}
    (made : newDeflated name modified crc32 compressedSize uncompressedSize localOffset =
      .ok record)
    {fields : Fields} (said : fields = {
      name, nameSize := (LossyUtf8.encode name).length, flags := utf8Flag,
      methodCode := Method.deflate.code, modified, crc32, compressedSize, uncompressedSize,
      localOffset }) :
    Origin record (newBytes fields) fields

/-! ### Bytes and fields of one record -/

theorem ofBytes_encode_append (record : DirectoryRecord) (rest : Bytes) :
    Fields.ofBytes (record.encode ++ rest) = record.fields := by
  have nameSize : (UInt16.ofNat record.nameBytes.length).toNat = record.nameBytes.length :=
    UInt16.toNat_ofNat_of_lt' record.nameFits
  rw [Fields.ofBytes, fields, nameIn_encode_append]
  simp only [encode_eq, Header.encode, header, modified, List.append_assoc,
    Bytes.field_skip_word16, Bytes.field_skip_word32, Bytes.field_word16, Bytes.field_word32,
    UInt16.ofNat_toNat, UInt32.ofNat_toNat, nameSize]

theorem ofBytes_encode (record : DirectoryRecord) :
    Fields.ofBytes record.encode = record.fields := by
  have alone := record.ofBytes_encode_append []
  rwa [List.append_nil] at alone

namespace Origin

variable {record : DirectoryRecord} {raw : Bytes} {given : Fields}

/-- A record keeps the bytes that it had in the beginning. -/
theorem encode_eq (origin : Origin record raw given) : record.encode = raw := by
  cases origin with
  | parsed parsed =>
    obtain rfl := parse_eq_ok_iff.1 parsed
    rw [declaredSize_encode, List.take_left]
  | made made said =>
    unfold newDeflated at made
    dsimp only at made
    split at made
    case isFalse => cases made
    cases made
    subst said
    -- No extra field, no comment, the first disk and no attributes.
    have blank : Bytes.word16 0 ++ (Bytes.word16 0 ++ (Bytes.word16 0 ++ (Bytes.word16 0 ++
        Bytes.word32 0))) = Bytes.zeros 12 := by decide
    rw [newBytes, ← blank]
    simp only [encode, encodeFields, List.append_assoc, List.append_nil]
    rfl

/-- A record says what was said of it in the beginning. -/
theorem fields_eq (origin : Origin record raw given) : record.fields = given := by
  cases origin with
  | parsed parsed =>
    obtain rfl := parse_eq_ok_iff.1 parsed
    rw [ofBytes_encode_append]
  | made made said =>
    unfold newDeflated at made
    dsimp only at made
    split at made
    case isFalse => cases made
    cases made
    subst said
    simp only [fields, DirectoryRecord.name, LossyUtf8.decode_encode]
    rfl

end Origin

/-! ### Moved records -/

/-- Only the last one of several moves counts. -/
theorem foldl_withLocalOffset (record : DirectoryRecord) (offsets : List UInt32) :
    offsets.foldl withLocalOffset record =
      record.withLocalOffset (offsets.getLast?.getD record.localOffset) := by
  induction offsets generalizing record with
  | nil => rfl
  | cons first rest ih =>
    rw [List.foldl_cons, ih, List.getLast?_cons]
    rfl

theorem encode_withLocalOffset_eq (record : DirectoryRecord) (offset : UInt32) :
    (record.withLocalOffset offset).encode =
      record.encode.take 42 ++ (Bytes.word32 offset ++ record.encode.drop 46) := by
  rw [encode_eq_front, take_encode, drop_encode]
  rfl

/-- A record that was parsed or made and then moved any number of times has the bytes that it had,
but for the four bytes of the offset, which are those of the last one. What it says has changed in
the same way, and it is what stands in its bytes. So it is what is parsed where these bytes stand,
and as many bytes are taken as the record has. -/
theorem fields_agree_with_bytes {original : DirectoryRecord} {raw : Bytes} {given : Fields}
    (origin : Origin original raw given) (offsets : List UInt32) (rest : Bytes) :
    let record := offsets.foldl withLocalOffset original
    let offset := offsets.getLast?.getD given.localOffset
    original.encode = raw ∧
      record.encode = raw.take 42 ++ (Bytes.word32 offset ++ raw.drop 46) ∧
      record.encode.length = record.size ∧
      record.fields = { given with localOffset := offset } ∧
      Fields.ofBytes record.encode = record.fields ∧
      parse (record.encode ++ rest) = .ok (record, rest) := by
  intro record offset
  have moved : record = original.withLocalOffset offset := by
    have last : original.localOffset = given.localOffset :=
      congrArg Fields.localOffset origin.fields_eq
    rw [show offset = offsets.getLast?.getD given.localOffset from rfl, ← last]
    exact original.foldl_withLocalOffset offsets
  refine ⟨origin.encode_eq, ?_, record.length_encode, ?_, record.ofBytes_encode,
    parse_eq_ok_iff.2 rfl⟩
  · rw [moved, encode_withLocalOffset_eq, origin.encode_eq]
  · rw [moved, ← origin.fields_eq]
    rfl

/-- A record with a name that is not UTF-8, an extra field and a comment. -/
def sample : DirectoryRecord where
  madeBy := 0x0314
  needed := 10
  flags := 0
  methodCode := 0
  time := 0x6000
  date := 0x5921
  crc32 := 0xDEADBEEF
  compressedSize := 5
  uncompressedSize := 5
  disk := 0
  internalAttributes := 1
  externalAttributes := 0x81A40000
  localOffset := 77
  nameBytes := [0x61, 0xFF]
  extra := [1, 2, 0, 0]
  comment := [0x6F, 0x6B]
  nameFits := Nat.le_of_ble_eq_true rfl
  extraFits := Nat.le_of_ble_eq_true rfl
  commentFits := Nat.le_of_ble_eq_true rfl

/-- One record is parsed and moved twice, another one is made and not moved. -/
theorem moved_sample_is_parsed :
    parse (sample.encode ++ [9]) = .ok (sample, [9]) ∧
      (let moved := (sample.withLocalOffset 5).withLocalOffset 258
       moved.encode = sample.encode.take 42 ++ ([2, 1, 0, 0] ++ sample.encode.drop 46) ∧
         moved.fields = { sample.fields with localOffset := 258 } ∧
         parse (moved.encode ++ [7]) = .ok (moved, [7])) ∧
      ∃ made, newDeflated "é" .default 7 3 9 512 = .ok made ∧
        Fields.ofBytes made.encode =
          ⟨"é", 2, utf8Flag, 8, .default, 7, 3, 9, 512⟩ := by
  have parsed : parse (sample.encode ++ [9]) = .ok (sample, [9]) := parse_eq_ok_iff.2 rfl
  have raw : (sample.encode ++ [9]).take (declaredSize (sample.encode ++ [9])) = sample.encode := by
    rw [declaredSize_encode, List.take_left]
  obtain ⟨-, bytes, -, fields, -, again⟩ :=
    fields_agree_with_bytes (.parsed parsed) [5, 258] [7]
  rw [raw] at bytes
  rw [ofBytes_encode_append] at fields
  obtain ⟨made, run⟩ : ∃ made, newDeflated "é" .default 7 3 9 512 = .ok made := ⟨_, rfl⟩
  obtain ⟨-, -, -, said, same, -⟩ := fields_agree_with_bytes (.made run rfl) [] []
  exact ⟨parsed, ⟨bytes, fields, again⟩, made, run, same.trans said⟩

end ApkArchive.DirectoryRecord

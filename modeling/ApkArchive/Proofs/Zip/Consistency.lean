import ApkArchive.Proofs.Bytes.Field
import ApkArchive.Proofs.Zip.Blame

/-!
# Which local records are consistent

Whether an entry is accepted can be told from the bytes of the archive alone. `Consistent` lists
what has to hold of them: the fields of the local header agree with the directory record, the name
is the same, and header, data and data descriptor end where the entries end, or before.

    locate entries record directory = ok … ↔ Consistent bytes record directory

If it does not hold, the error is a fault that is blamed on the offset to which the record points.
-/

namespace ApkArchive

namespace LocalHeader

open Reader in
theorem takes_read : Takes fixedSize read :=
  takes_word32.bind fun _ => takes_word16.bind fun _ => takes_word16.bind fun _ =>
    takes_word16.bind fun _ => takes_word16.bind fun _ => takes_word16.bind fun _ =>
    takes_word32.bind fun _ => takes_word32.bind fun _ => takes_word32.bind fun _ =>
    takes_word16.bind fun _ => takes_word16.bind fun _ => takes_pure _

/-- Any 30 bytes are a header. -/
theorem exists_encode {bytes : Bytes} (enough : fixedSize ≤ bytes.length) :
    ∃ header rest, bytes = encode header ++ rest := by
  obtain ⟨header, rest, read, -⟩ := takes_read bytes enough
  exact ⟨header, rest, run_read_eq_some_iff.1 read⟩

/-- Where the fields that are compared stand. -/
theorem field_encode (header : LocalHeader) (rest : Bytes) :
    (header.encode ++ rest).field 0 4 = header.signature.toNat ∧
      (header.encode ++ rest).field 6 2 = header.flags.toNat ∧
      (header.encode ++ rest).field 14 4 = header.crc32.toNat ∧
      (header.encode ++ rest).field 18 4 = header.compressedSize.toNat ∧
      (header.encode ++ rest).field 22 4 = header.uncompressedSize.toNat ∧
      (header.encode ++ rest).field 26 2 = header.nameSize.toNat ∧
      (header.encode ++ rest).field extraSizeOffset 2 = header.extraSize.toNat := by
  simp [encode, extraSizeOffset]

end LocalHeader

namespace LocalRecord

/-! ### Consistent bytes -/

/-- The bytes at the offset of a directory record begin with a local header and a name that agree
with it. With a data descriptor, checksum and sizes are not compared. -/
structure HeaderAgrees (bytes : Bytes) (record : DirectoryRecord) : Prop where
  signed : bytes.field record.localOffset.toNat 4 = LocalHeader.magic.toNat
  descriptor : UInt16.ofNat (bytes.field (record.localOffset.toNat + 6) 2) &&& descriptorFlag ≠ 0 ↔
    record.hasDescriptor = true
  crc32 : record.hasDescriptor = false →
    bytes.field (record.localOffset.toNat + 14) 4 = record.crc32.toNat
  compressedSize : record.hasDescriptor = false →
    bytes.field (record.localOffset.toNat + 18) 4 = record.compressedSize.toNat
  uncompressedSize : record.hasDescriptor = false →
    bytes.field (record.localOffset.toNat + 22) 4 = record.uncompressedSize.toNat
  nameSize : bytes.field (record.localOffset.toNat + 26) 2 = record.nameBytes.length
  name : (bytes.drop (record.localOffset.toNat + LocalHeader.fixedSize)).take
    record.nameBytes.length = record.nameBytes

/-- Where the extra field of an entry begins. -/
def extraPlace (record : DirectoryRecord) : Nat :=
  record.localOffset.toNat + LocalHeader.fixedSize + record.nameBytes.length

/-- The size of the extra field, which is only in the local header. -/
def extraSizeAt (bytes : Bytes) (record : DirectoryRecord) : Nat :=
  bytes.field (record.localOffset.toNat + LocalHeader.extraSizeOffset) 2

/-- Where the data of an entry ends. Stored data has the uncompressed size. -/
def dataStopAt (bytes : Bytes) (record : DirectoryRecord) : Nat :=
  extraPlace record + extraSizeAt bytes record +
    if record.method = .stored then record.uncompressedSize.toNat else record.compressedSize.toNat

/-- The size of the data descriptor of an entry. Its first four bytes are optional: they are taken
for a signature whenever they look like one. -/
def descriptorSizeAt (bytes : Bytes) (record : DirectoryRecord) : Nat :=
  if record.hasDescriptor then
    if bytes.field (dataStopAt bytes record) 4 = descriptorMagic.toNat then 16 else 12
  else 0

/-- The local record to which a directory record points is consistent with it, and no part of it
reaches past the place where the entries end. -/
structure Consistent (bytes : Bytes) (record : DirectoryRecord) (directory : Nat) : Prop
    extends HeaderAgrees bytes record where
  headerRoom : extraPlace record ≤ directory
  dataRoom : dataStopAt bytes record ≤ directory
  descriptorRoom : dataStopAt bytes record + descriptorSizeAt bytes record ≤ directory

theorem dataSizeOf_eq (record : DirectoryRecord) :
    dataSizeOf record = if record.method = .stored then record.uncompressedSize.toNat
      else record.compressedSize.toNat := by
  unfold dataSizeOf
  split
  · next stored => rw [if_pos stored]
  · next other => rw [if_neg other]

variable {bytes rest : Bytes} {record : DirectoryRecord} {header : LocalHeader}

/-- In terms of the header that stands at the offset, and of what follows it. -/
theorem headerAgrees_iff
    (split : bytes.drop record.localOffset.toNat = header.encode ++ rest) :
    HeaderAgrees bytes record ↔ Agrees record header ∧
      header.nameSize.toNat = record.nameBytes.length ∧
        rest.take record.nameBytes.length = record.nameBytes := by
  obtain ⟨signature, flags, crc32, compressed, uncompressed, nameSize, -⟩ :=
    header.field_encode rest
  rw [← split, Bytes.field_drop] at signature flags crc32 compressed uncompressed nameSize
  have name : bytes.drop (record.localOffset.toNat + LocalHeader.fixedSize) = rest := by
    rw [← header.length_encode, Bytes.drop_of_drop_eq_append split]
  have announced :
      UInt16.ofNat (bytes.field (record.localOffset.toNat + 6) 2) &&& descriptorFlag ≠ 0 ↔
        header.hasDescriptor = true := by
    rw [flags, UInt16.ofNat_toNat, LocalHeader.hasDescriptor, decide_eq_true_eq]
  constructor
  · intro agrees
    have same : header.hasDescriptor = record.hasDescriptor :=
      Bool.eq_iff_iff.2 (announced.symm.trans agrees.descriptor)
    refine ⟨⟨?_, same, ?_, ?_, ?_⟩, nameSize.symm.trans agrees.nameSize, name ▸ agrees.name⟩
    · exact UInt32.toNat_inj.1 (signature.symm.trans agrees.signed)
    · intro absent
      exact UInt32.toNat_inj.1 (crc32.symm.trans (agrees.crc32 (same ▸ absent)))
    · intro absent
      exact UInt32.toNat_inj.1 (compressed.symm.trans (agrees.compressedSize (same ▸ absent)))
    · intro absent
      exact UInt32.toNat_inj.1 (uncompressed.symm.trans (agrees.uncompressedSize (same ▸ absent)))
  · rintro ⟨agrees, size, same⟩
    have plain (absent : record.hasDescriptor = false) : header.hasDescriptor = false :=
      agrees.descriptor.trans absent
    constructor
    · rw [← agrees.signed]; exact signature
    · rw [announced, agrees.descriptor]
    · intro absent; rw [crc32, agrees.crc32 (plain absent)]
    · intro absent; rw [compressed, agrees.compressedSize (plain absent)]
    · intro absent; rw [uncompressed, agrees.uncompressedSize (plain absent)]
    · exact nameSize.trans size
    · rw [name, same]

/-! ### Where the parts of a layout stand -/

/-- Whether bytes are a signature can be told from the number that they are. -/
theorem descriptorLength_eq {tail : Bytes} (enough : 4 ≤ tail.length) :
    descriptorLength true tail = if tail.field 0 4 = descriptorMagic.toNat then 16 else 12 := by
  rw [descriptorLength, if_pos rfl, descriptorSize]
  congr 1
  rw [Bytes.field_eq_toNat_iff (by omega), List.drop_zero]

namespace Layout

variable {back : Bytes} (layout : Layout record)

/-- The size of a data descriptor is the one that its first four bytes give it. -/
theorem length_descriptor_eq {dataStop : Nat}
    (split : bytes.drop dataStop = layout.descriptor ++ back) :
    layout.descriptor.length = if record.hasDescriptor then
      if bytes.field dataStop 4 = descriptorMagic.toNat then 16 else 12 else 0 := by
  have size := layout.descriptorSize
  by_cases expected : record.hasDescriptor = true
  · have long : 4 ≤ layout.descriptor.length := by
      rw [size, expected, descriptorLength, if_pos rfl, LocalRecord.descriptorSize]
      split <;> omega
    have field : bytes.field dataStop 4 = layout.descriptor.field 0 4 := by
      rw [← Nat.add_zero dataStop, ← Bytes.field_drop, split,
        Bytes.field_append_left (by omega)]
    rw [if_pos expected, field, size, expected, descriptorLength_eq long]
  · rw [Bool.not_eq_true] at expected
    rw [size, expected]
    rfl

/-- Behind the local header stand the parts of the layout, one after the other. -/
theorem parts_eq (split : bytes.drop record.localOffset.toNat = layout.bytes ++ back) :
    extraSizeAt bytes record = layout.extra.length ∧
      (bytes.drop (extraPlace record)).take (extraSizeAt bytes record) = layout.extra ∧
      dataStopAt bytes record + descriptorSizeAt bytes record =
        record.localOffset.toNat + layout.bytes.length := by
  have header : bytes.drop record.localOffset.toNat = layout.header.encode ++ (record.nameBytes ++
      (layout.extra ++ (layout.data ++ (layout.descriptor ++ back)))) := by
    rw [split, Layout.bytes]
    simp only [List.append_assoc]
  have name := Bytes.drop_of_drop_eq_append header
  have extra := Bytes.drop_of_drop_eq_append name
  have data := Bytes.drop_of_drop_eq_append extra
  have descriptor := Bytes.drop_of_drop_eq_append data
  rw [LocalHeader.length_encode] at name extra data descriptor
  have extraSize : extraSizeAt bytes record = layout.extra.length := by
    obtain ⟨-, -, -, -, -, -, field⟩ := layout.header.field_encode (record.nameBytes ++
      (layout.extra ++ (layout.data ++ (layout.descriptor ++ back))))
    rw [extraSizeAt, ← Bytes.field_drop, header, field, layout.extraSize]
  have dataStop : dataStopAt bytes record = record.localOffset.toNat + LocalHeader.fixedSize +
      record.nameBytes.length + layout.extra.length + layout.data.length := by
    rw [dataStopAt, extraSize, layout.dataSize, dataSizeOf_eq, extraPlace]
  refine ⟨extraSize, ?_, ?_⟩
  · rw [extraSize, extraPlace, extra, List.take_left]
  · have length := layout.length_descriptor_eq descriptor
    rw [← dataStop] at length
    rw [descriptorSizeAt, ← length, dataStop, layout.length_bytes]
    omega

end Layout

/-! ### Located and consistent -/

section Located

variable {entries : View} {directory : Nat}

/-- The bytes of a layout, and what follows them in the section. -/
theorem Layout.exists_split (layout : Layout record) (shows : entries.Shows bytes)
    (inside : record.localOffset.toNat + layout.bytes.length ≤ bytes.length)
    (has : entries.Has record.localOffset.toNat layout.bytes) :
    ∃ back, bytes.drop record.localOffset.toNat = layout.bytes ++ back := by
  have front : (bytes.drop record.localOffset.toNat).take layout.bytes.length = layout.bytes := by
    rw [← shows.bytes_eq inside, has]
  refine ⟨(bytes.drop record.localOffset.toNat).drop layout.bytes.length, ?_⟩
  rw [← front, List.length_take, List.length_drop, Nat.min_eq_left (by omega),
    List.take_append_drop]

/-- A layout that ends before the directory is consistent. -/
theorem Layout.consistent (layout : Layout record) {back : Bytes}
    (split : bytes.drop record.localOffset.toNat = layout.bytes ++ back)
    (inside : record.localOffset.toNat + layout.bytes.length ≤ directory) :
    Consistent bytes record directory := by
  obtain ⟨-, -, stop⟩ := layout.parts_eq split
  have dataRoom : dataStopAt bytes record ≤ directory := by omega
  rw [Layout.bytes, List.append_assoc, List.append_assoc] at split
  have agrees : HeaderAgrees bytes record :=
    (headerAgrees_iff split).2 ⟨layout.agrees, layout.nameSize, List.take_left⟩
  refine ⟨agrees, ?_, dataRoom, ?_⟩
  · rw [dataStopAt] at dataRoom
    omega
  · omega

/-- Where the bytes are consistent, there is a layout that ends before the directory. -/
theorem Consistent.exists_layout (consistent : Consistent bytes record directory)
    (shows : entries.Shows bytes) (bounded : directory ≤ bytes.length) :
    ∃ layout : Layout record, record.localOffset.toNat + layout.bytes.length ≤ directory ∧
      entries.Has record.localOffset.toNat layout.bytes := by
  have headerRoom := consistent.headerRoom
  rw [extraPlace] at headerRoom
  have enough : LocalHeader.fixedSize ≤ (bytes.drop record.localOffset.toNat).length := by
    rw [List.length_drop]
    omega
  obtain ⟨header, rest, split⟩ := LocalHeader.exists_encode enough
  obtain ⟨agrees, nameSize, name⟩ := (headerAgrees_iff split).1 consistent.toHeaderAgrees
  have front : entries.Has record.localOffset.toNat (header.encode ++ record.nameBytes) := by
    rw [View.Has, List.length_append, header.length_encode, shows.bytes_eq (by omega), split,
      ← header.length_encode, List.take_length_add_append, name]
  obtain ⟨layout, -, -, stop, has⟩ := Layout.exists_of_header agrees nameSize front rfl
  have dataStop : record.localOffset.toNat + LocalHeader.fixedSize + record.nameBytes.length +
      header.extraSize.toNat + dataSizeOf record = dataStopAt bytes record := by
    obtain ⟨-, -, -, -, -, -, extraSize⟩ := header.field_encode rest
    rw [← split, Bytes.field_drop] at extraSize
    rw [dataStopAt, extraSizeAt, extraSize, dataSizeOf_eq, extraPlace]
  refine ⟨layout, ?_, has⟩
  have room := consistent.descriptorRoom
  rw [dataStop] at stop
  rw [descriptorSizeAt, ← agrees.descriptor] at room
  rw [stop]
  cases expected : header.hasDescriptor with
  | false =>
    rw [expected] at room
    exact room
  | true =>
    -- The first bytes of the descriptor lie before the directory in any case.
    rw [expected, if_pos rfl] at room
    have inside : dataStopAt bytes record + 4 ≤ bytes.length := by split at room <;> omega
    rw [descriptorLength_eq (Nat.le_of_eq (entries.length_bytes _ _).symm), shows.bytes_eq inside,
      Bytes.field_take (by omega), Bytes.field_drop, Nat.add_zero]
    exact room

/-- What was located is a layout, and its bytes stand at the offset of the record. -/
theorem exists_layout_of_locate (shows : entries.Shows bytes) (bounded : directory ≤ bytes.length)
    {found : LocalRecord} (located : locate entries record directory = .ok found) :
    ∃ (layout : Layout record) (back : Bytes), found = layout.found ∧
      record.localOffset.toNat + layout.bytes.length ≤ directory ∧
      bytes.drop record.localOffset.toNat = layout.bytes ++ back := by
  obtain ⟨layout, rfl, inside, has⟩ := locate_sound located
  obtain ⟨back, split⟩ := layout.exists_split shows (Nat.le_trans inside bounded) has
  exact ⟨layout, back, rfl, inside, split⟩

theorem exists_locate_iff (shows : entries.Shows bytes) (bounded : directory ≤ bytes.length) :
    (∃ found, locate entries record directory = .ok found) ↔ Consistent bytes record directory := by
  constructor
  · rintro ⟨found, located⟩
    obtain ⟨layout, back, -, inside, split⟩ := exists_layout_of_locate shows bounded located
    exact layout.consistent split inside
  · intro consistent
    obtain ⟨layout, inside, has⟩ := consistent.exists_layout shows bounded
    have size := shows.size
    exact ⟨layout.found, locate_complete layout (by omega) inside
      (shows.holds_range (Nat.le_trans inside bounded)) has⟩

/-- Where all bytes of the entries can be read, an entry is located exactly if the bytes at the
offset of its directory record are consistent with the record. Then what is found is what stands
there, from the header to the end of data and data descriptor; otherwise the record is malformed,
and the offset is the place of the fault. -/
theorem located_iff_consistent (shows : entries.Shows bytes) (record : DirectoryRecord)
    (bounded : directory ≤ bytes.length) :
    ((∃ found, locate entries record directory = .ok found) ↔ Consistent bytes record directory) ∧
      (∀ found, locate entries record directory = .ok found →
        found.start = record.localOffset.toNat ∧
        found.extra = (bytes.drop (extraPlace record)).take (extraSizeAt bytes record) ∧
        found.extra.length = extraSizeAt bytes record ∧
        found.dataStart = LocalHeader.fixedSize + record.nameBytes.length + found.extra.length ∧
        found.start + found.size = dataStopAt bytes record + descriptorSizeAt bytes record ∧
        found.start + found.size ≤ directory) ∧
      ∀ error, locate entries record directory = .error error →
        ∃ fault, error = .faultAt record.localOffset.toNat fault := by
  refine ⟨exists_locate_iff shows bounded, ?_, ?_⟩
  · intro found located
    obtain ⟨layout, back, rfl, inside, split⟩ := exists_layout_of_locate shows bounded located
    obtain ⟨extraSize, extra, stop⟩ := layout.parts_eq split
    exact ⟨rfl, extra.symm, extraSize.symm, rfl, stop.symm, inside⟩
  · intro error failed
    exact Error.isElsewhere_eq_false_iff.1
      (excludes_locate_of_shows shows record bounded error failed)

end Located

/-- The directory record of a stored entry of two bytes with a data descriptor. Its extra field is
not the one of the local header. -/
def sampleRecord : DirectoryRecord where
  madeBy := 20
  needed := 20
  flags := 8
  methodCode := 0
  time := 0
  date := 33
  crc32 := 0xB6CC4292
  compressedSize := 2
  uncompressedSize := 2
  disk := 0
  internalAttributes := 0
  externalAttributes := 0
  localOffset := 1
  nameBytes := [0x6E]
  extra := [9, 0, 0, 0]
  comment := [0x63]
  nameFits := Nat.le_of_ble_eq_true rfl
  extraFits := Nat.le_of_ble_eq_true rfl
  commentFits := Nat.le_of_ble_eq_true rfl

/-- Its local header leaves checksum and sizes to the data descriptor. -/
def sampleHeader : LocalHeader where
  signature := LocalHeader.magic
  needed := 20
  flags := 8
  methodCode := 0
  time := 0
  date := 33
  crc32 := 0
  compressedSize := 0
  uncompressedSize := 0
  nameSize := 1
  extraSize := 4

/-- The entry stands after one other byte. Its data descriptor has a signature. -/
def sampleBytes : Bytes :=
  [7] ++ (sampleHeader.encode ++ ([0x6E] ++ ([0, 0, 0, 0] ++ ([1, 2] ++
    (Bytes.word32 descriptorMagic ++ (Bytes.word32 0xB6CC4292 ++ (Bytes.word32 2 ++
      Bytes.word32 2)))))))

/-- All 16 bytes of the descriptor belong to the entry: with one byte less it is malformed. -/
theorem described_entry_is_located :
    (View.ofBytes sampleBytes).Shows sampleBytes ∧ 53 < sampleBytes.length ∧
      (∃ found, locate (View.ofBytes sampleBytes) sampleRecord 54 = .ok found ∧
        found.extra = [0, 0, 0, 0] ∧ found.dataStart = 35 ∧ found.start + found.size = 54) ∧
      ∃ fault, locate (View.ofBytes sampleBytes) sampleRecord 53 = .error (.faultAt 1 fault) := by
  have shows := View.shows_ofBytes sampleBytes
  have bounded : 54 ≤ sampleBytes.length := by decide
  have agrees : HeaderAgrees sampleBytes sampleRecord :=
    ⟨by decide, by decide, by decide, by decide, by decide, by decide, by decide⟩
  have consistent : Consistent sampleBytes sampleRecord 54 :=
    ⟨agrees, by decide, by decide, by decide⟩
  obtain ⟨accepted, parts, -⟩ := located_iff_consistent shows sampleRecord bounded
  obtain ⟨refused, -, blamed⟩ := located_iff_consistent shows sampleRecord (Nat.le_of_lt bounded)
  refine ⟨shows, bounded, ?_, ?_⟩
  · obtain ⟨found, located⟩ := accepted.2 consistent
    obtain ⟨-, extra, -, start, stop, -⟩ := parts found located
    have extra : found.extra = [0, 0, 0, 0] := extra.trans (by decide)
    refine ⟨found, located, extra, ?_, stop.trans (by decide)⟩
    rw [start, extra]
    rfl
  · cases result : locate (View.ofBytes sampleBytes) sampleRecord 53 with
    | ok found =>
      have room := (refused.1 ⟨found, result⟩).descriptorRoom
      exact absurd room (by decide)
    | error error =>
      obtain ⟨fault, rfl⟩ := blamed error result
      exact ⟨fault, rfl⟩

end LocalRecord
end ApkArchive

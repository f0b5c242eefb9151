import ApkArchive.Proofs.Storage.Delivery
import ApkArchive.Proofs.Zip.LocalRecord
import ApkArchive.Zip.LocalRecord.Emit

/-!
# What writing a local record writes

A record is written as a layout: its own, or one with another extra field. In both cases all other
parts stay, so the layout belongs to the same directory record, moved to where it is written. A new
entry is written as a layout of its new directory record.

The data of a layout reads the same wherever the layout stands.
-/

namespace ApkArchive

namespace LocalHeader

/-- The header with another size of the extra field. -/
def withExtraSize (header : LocalHeader) (size : UInt16) : LocalHeader :=
  { header with extraSize := size }

/-- The size of the extra field ends the header, and nothing before it changes. -/
theorem encode_withExtraSize (header : LocalHeader) (size : UInt16) :
    (header.withExtraSize size).encode =
      header.encode.take extraSizeOffset ++ Bytes.word16 size := by
  have front : ∃ fields : Bytes, fields.length = extraSizeOffset ∧
      ∀ size, (header.withExtraSize size).encode = fields ++ Bytes.word16 size := by
    refine ⟨Bytes.word32 header.signature ++ (Bytes.word16 header.needed ++
      (Bytes.word16 header.flags ++ (Bytes.word16 header.methodCode ++ (Bytes.word16 header.time ++
        (Bytes.word16 header.date ++ (Bytes.word32 header.crc32 ++
          (Bytes.word32 header.compressedSize ++ (Bytes.word32 header.uncompressedSize ++
            Bytes.word16 header.nameSize)))))))), ?_, ?_⟩
    · simp only [List.length_append, Bytes.length_word32, Bytes.length_word16, extraSizeOffset]
    · intro size
      simp only [encode, withExtraSize, List.append_assoc]
  obtain ⟨fields, length, encoded⟩ := front
  have own : header.encode = fields ++ Bytes.word16 header.extraSize := encoded header.extraSize
  rw [encoded, own, ← length, List.take_left]

end LocalHeader

namespace LocalRecord

namespace Layout

variable {record : DirectoryRecord}

/-- The same local record somewhere else. -/
def move (layout : Layout record) (offset : UInt32) : Layout (record.withLocalOffset offset) where
  header := layout.header
  extra := layout.extra
  data := layout.data
  descriptor := layout.descriptor
  agrees := {
    signed := layout.agrees.signed
    descriptor := layout.agrees.descriptor
    crc32 := layout.agrees.crc32
    compressedSize := layout.agrees.compressedSize
    uncompressedSize := layout.agrees.uncompressedSize }
  nameSize := layout.nameSize
  extraSize := layout.extraSize
  dataSize := layout.dataSize
  descriptorSize := layout.descriptorSize

/-- The local record with another extra field. -/
def withExtra (layout : Layout record) (extra : Bytes) (fits : extra.length < 65536) :
    Layout record where
  header := layout.header.withExtraSize (UInt16.ofNat extra.length)
  extra := extra
  data := layout.data
  descriptor := layout.descriptor
  agrees := {
    signed := layout.agrees.signed
    descriptor := layout.agrees.descriptor
    crc32 := layout.agrees.crc32
    compressedSize := layout.agrees.compressedSize
    uncompressedSize := layout.agrees.uncompressedSize }
  nameSize := layout.nameSize
  extraSize := UInt16.toNat_ofNat_of_lt' fits
  dataSize := layout.dataSize
  descriptorSize := layout.descriptorSize

theorem withExtra_eq_self (layout : Layout record) {extra : Bytes} (same : extra = layout.extra)
    (fits : extra.length < 65536) : layout.withExtra extra fits = layout := by
  subst same
  -- The size field already has the length of the extra field.
  have header : layout.header.withExtraSize (UInt16.ofNat layout.extra.length) = layout.header := by
    rw [← layout.extraSize, UInt16.ofNat_toNat]
    rfl
  obtain ⟨_, _, _, _⟩ := layout
  dsimp only at header
  simp only [withExtra, header]

/-- Where the data begins, from the start of the record. -/
theorem dataStart_found (layout : Layout record) :
    layout.found.dataStart =
      LocalHeader.fixedSize + record.nameBytes.length + layout.extra.length := rfl

theorem dataStart_le (layout : Layout record) :
    layout.found.dataStart + layout.data.length ≤ layout.bytes.length := by
  have := layout.length_bytes
  rw [dataStart_found]
  omega

/-! ### Reading the data of a layout -/

theorem has_data {view : View} (layout : Layout record)
    (has : view.Has record.localOffset.toNat layout.bytes) :
    view.Has (record.localOffset.toNat + layout.found.dataStart) layout.data := by
  obtain ⟨-, -, data, -⟩ := layout.has_parts has
  rwa [dataStart_found, ← Nat.add_assoc, ← Nat.add_assoc]

/-- The data of a layout is read the same way wherever its bytes stand. -/
theorem feed_data {entries : View} (layout : Layout record)
    (has : entries.Has record.localOffset.toNat layout.bytes)
    (inside : record.localOffset.toNat + layout.bytes.length ≤ entries.size)
    (held : entries.Holds (record.localOffset.toNat + layout.found.dataStart) layout.data.length) :
    entries.feed (layout.found.start + layout.found.dataStart) layout.found.dataSize =
      Sink.stream layout.data := by
  have room := layout.dataStart_le
  show entries.feed (record.localOffset.toNat + layout.found.dataStart) (dataSizeOf record) = _
  rw [← layout.dataSize, View.feed_of_holds (by omega) held, layout.has_data has]

end Layout

/-- The bytes of a layout stand in a view where the record points, and all of them can be read. -/
structure Placed (view : View) (record : DirectoryRecord) (layout : Layout record) : Prop where
  inside : record.localOffset.toNat + layout.bytes.length ≤ view.size
  holds : view.Holds record.localOffset.toNat layout.bytes.length
  has : view.Has record.localOffset.toNat layout.bytes

namespace Placed

variable {view : View} {record : DirectoryRecord} {layout : Layout record}

theorem of_split {front back : Bytes} (shows : view.Shows (front ++ (layout.bytes ++ back)))
    (place : record.localOffset.toNat = front.length) : Placed view record layout := by
  have size := shows.size
  simp only [List.length_append] at size
  refine ⟨by omega, shows.holds_range ?_, ?_⟩
  · simp only [List.length_append]
    omega
  · rw [place]
    exact shows.has rfl

theorem locate_eq (placed : Placed view record layout) {directory : Nat}
    (last : record.localOffset.toNat + layout.bytes.length ≤ directory)
    (bounded : directory ≤ view.size) : locate view record directory = .ok layout.found :=
  locate_complete layout bounded last placed.holds placed.has

theorem located (placed : Placed view record layout) :
    locate view record view.size = .ok layout.found :=
  placed.locate_eq placed.inside (Nat.le_refl _)

theorem feed (placed : Placed view record layout) :
    view.feed (layout.found.start + layout.found.dataStart) layout.found.dataSize =
      Sink.stream layout.data := by
  have room := layout.dataStart_le
  refine layout.feed_data placed.has placed.inside ?_
  exact placed.holds.mono (Nat.le_add_right ..) (by omega)

end Placed

/-- What is written of the data of a record depends on the record only through its name, its
method, the size of its contents and its data. -/
theorem emitData_congr {found found' : LocalRecord} {entries entries' : View}
    (name : found.name = found'.name) (method : found.method = found'.method)
    (size : found.uncompressedSize = found'.uncompressedSize)
    (data : entries.feed (found.start + found.dataStart) found.dataSize =
      entries'.feed (found'.start + found'.dataStart) found'.dataSize) :
    found.emitData entries = found'.emitData entries' := by
  have inflated : found.emitInflated = found'.emitInflated := by
    funext stream read
    simp only [emitInflated, name, size]
  unfold emitData
  simp only [data, method, inflated, name]

/-! ### Copying a record -/

theorem emits_copy (found : LocalRecord) (entries : View) :
    Sink.Emits (found.copy entries) found.size (entries.bytes found.start found.size) := by
  intro sink sink' _ run
  obtain ⟨_, _, fed, run⟩ := run_bind_eq_ok_iff.1 run
  obtain ⟨rfl, rfl⟩ := run_pure_eq_ok_iff.1 run
  exact ⟨rfl, (entries.emits_feed _ _ fed).2⟩

/-- A record that was copied could be read. -/
theorem holds_of_copy {found : LocalRecord} {entries : View} {sink sink' : Sink} {n : Nat}
    (run : found.copy entries sink = .ok n sink') : entries.Holds found.start found.size := by
  obtain ⟨_, _, fed, _⟩ := run_bind_eq_ok_iff.1 run
  exact (View.holds_of_feed fed).2

theorem delivers_copy {found : LocalRecord} {entries : View}
    (inside : found.stop ≤ entries.size) (held : entries.Holds found.start found.size) :
    Sink.Delivers (found.copy entries) found.size (entries.bytes found.start found.size) := by
  have copied : Sink.Delivers (found.copy entries) found.size
      (entries.bytes found.start found.size ++ []) :=
    (View.delivers_feed _ _ _ inside held).bind (Sink.delivers_pure found.size)
  rwa [List.append_nil] at copied

namespace Layout

variable {record : DirectoryRecord} {entries : View} (layout : Layout record)

theorem bytes_front (has : entries.Has record.localOffset.toNat layout.bytes) :
    entries.bytes layout.found.start layout.found.extraStart =
      layout.header.encode ++ record.nameBytes := by
  obtain ⟨front, -⟩ := layout.has_parts has
  rw [View.Has, List.length_append, LocalHeader.length_encode] at front
  exact front

theorem length_back :
    layout.found.size - layout.found.dataStart = (layout.data ++ layout.descriptor).length := by
  have place := layout.dataStart_found
  have length := layout.length_bytes
  show layout.bytes.length - _ = _
  rw [List.length_append]
  omega

theorem bytes_back (has : entries.Has record.localOffset.toNat layout.bytes) :
    entries.bytes (layout.found.start + layout.found.dataStart)
      (layout.found.size - layout.found.dataStart) = layout.data ++ layout.descriptor := by
  obtain ⟨-, -, data, descriptor⟩ := layout.has_parts has
  have both := View.has_append_iff.2 ⟨data, descriptor⟩
  rw [Nat.add_assoc, Nat.add_assoc, ← Nat.add_assoc _ _ layout.extra.length,
    ← layout.dataStart_found] at both
  rw [length_back]
  exact both

/-- How many bytes a copy with another extra field is said to write. -/
theorem length_withExtra {extra : Bytes} (fits : extra.length < 65536) :
    layout.found.extraStart + extra.length + (layout.found.size - layout.found.dataStart) =
      (layout.withExtra extra fits).bytes.length := by
  rw [length_back, length_bytes, List.length_append]
  exact (Nat.add_assoc ..).symm

/-- Header and name are patched in memory. -/
theorem patch_front (extra : Bytes) (fits : extra.length < 65536) :
    (layout.header.encode ++ record.nameBytes).take LocalHeader.extraSizeOffset ++
      Bytes.word16 (UInt16.ofNat extra.length) ++
      (layout.header.encode ++ record.nameBytes).drop LocalHeader.fixedSize =
        (layout.withExtra extra fits).header.encode ++ record.nameBytes := by
  rw [withExtra, LocalHeader.encode_withExtraSize, List.take_append_of_le_length
    (by simp [LocalHeader.length_encode, LocalHeader.extraSizeOffset, LocalHeader.fixedSize]),
    List.drop_left' (LocalHeader.length_encode _)]

/-- Copying with another extra field patches the front of the record and streams the rest. -/
theorem copyWithExtra_eq (placed : Placed entries record layout) {extra : Bytes}
    (fits : extra.length < 65536) :
    layout.found.copyWithExtra entries extra = (do
      Sink.write ((layout.withExtra extra fits).header.encode ++ record.nameBytes ++ extra)
      Sink.stream (layout.data ++ layout.descriptor)
      return (layout.withExtra extra fits).bytes.length) := by
  obtain ⟨inside, holds, has⟩ := placed
  have room := layout.dataStart_le
  have nameRoom : layout.found.extraStart ≤ layout.found.dataStart := Nat.le_add_right ..
  have start : layout.found.start = record.localOffset.toNat := rfl
  have size : layout.found.size = layout.bytes.length := rfl
  have front : entries.copy layout.found.start layout.found.extraStart =
      .ok (layout.header.encode ++ record.nameBytes) := by
    rw [← layout.bytes_front has]
    exact View.copy_eq_ok_iff.2 ⟨by omega, holds.mono (Nat.le_of_eq start.symm) (by omega), rfl⟩
  have back : entries.feed (layout.found.start + layout.found.dataStart)
      (layout.found.size - layout.found.dataStart) =
        Sink.stream (layout.data ++ layout.descriptor) := by
    rw [View.feed_of_holds (by omega) (holds.mono (by omega) (by omega)), layout.bytes_back has]
  unfold copyWithExtra
  rw [if_neg (Nat.not_le.2 fits), front]
  dsimp only
  rw [back, layout.length_withExtra fits, ← layout.patch_front extra fits]
  rfl

end Layout

/-- Copying with another extra field writes the layout with that extra field, and counts its
bytes. -/
theorem copyWithExtra_eq_ok {record : DirectoryRecord} {entries : View} {sink sink' : Sink}
    {extra : Bytes} {n : Nat} (layout : Layout record)
    (has : entries.Has record.localOffset.toNat layout.bytes)
    (run : layout.found.copyWithExtra entries extra sink = .ok n sink') :
    ∃ fits : extra.length < 65536,
      sink'.bytes = sink.bytes ++ (layout.withExtra extra fits).bytes ∧
        n = (layout.withExtra extra fits).bytes.length ∧
          entries.Holds (record.localOffset.toNat + layout.found.dataStart) layout.data.length := by
  unfold copyWithExtra at run
  split at run
  · cases run
  next fits =>
  have fits : extra.length < 65536 := Nat.lt_of_not_le fits
  obtain ⟨_, copied, run⟩ := run_ofExcept_eq_ok_iff.1 run
  obtain ⟨_, _, rfl⟩ := View.copy_eq_ok_iff.1 copied
  obtain ⟨_, middle, wrote, run⟩ := run_bind_eq_ok_iff.1 run
  obtain ⟨_, last, fed, run⟩ := run_bind_eq_ok_iff.1 run
  obtain ⟨rfl, rfl⟩ := run_pure_eq_ok_iff.1 run
  have room := layout.dataStart_le
  have held := (View.holds_of_feed fed).2
  refine ⟨fits, ?_, layout.length_withExtra fits, held.mono (Nat.le_refl _) ?_⟩
  · rw [(View.emits_feed _ _ _ fed).2, (Sink.emits_write _ wrote).2, layout.bytes_front has,
      layout.bytes_back has, layout.patch_front extra fits]
    simp only [Layout.bytes, Layout.withExtra, List.append_assoc]
  · show _ ≤ record.localOffset.toNat + layout.found.dataStart + (layout.bytes.length - _)
    omega

/-! ### Writing a new record -/

theorem newDeflated_eq_ok {name : String} {stamp : Timestamp}
    {crc32 compressedSize size offset : UInt32} {record : DirectoryRecord}
    (made : DirectoryRecord.newDeflated name stamp crc32 compressedSize size offset = .ok record) :
    record.nameBytes = LossyUtf8.encode name ∧ record.localOffset = offset ∧
      record.method = .deflate ∧ record.crc32 = crc32 ∧ record.uncompressedSize = size := by
  unfold DirectoryRecord.newDeflated at made
  dsimp only at made
  split at made
  · cases made
    exact ⟨rfl, rfl, rfl, rfl, rfl⟩
  · cases made

/-- A local record as it is written for a new entry: the header is made from the values of the
directory record, and there is nothing but name and data after it. -/
structure Layout.IsNew {record : DirectoryRecord} (layout : Layout record) (stamp : Timestamp)
    (crc32 size : UInt32) (compressed : Bytes) : Prop where
  header : layout.header = LocalHeader.newDeflated stamp crc32 (UInt32.ofNat compressed.length) size
    (UInt16.ofNat record.nameBytes.length)
  extra : layout.extra = []
  descriptor : layout.descriptor = []

/-- What is counted is what is written, and the size of the data fits into the header. -/
theorem emitNew_position {name : String} {stamp : Timestamp} {compressed : Bytes}
    {crc32 size : UInt32} {sink sink' : Sink} {n : Nat}
    (run : emitNew name stamp compressed crc32 size sink = .ok n sink') :
    compressed.length < UInt32.size ∧
      n = LocalHeader.fixedSize + (LossyUtf8.encode name).length + compressed.length ∧
        sink'.position = sink.position + n := by
  unfold emitNew at run
  obtain ⟨-, run⟩ := run_guard_eq_ok run
  obtain ⟨fits, run⟩ := run_guard_eq_ok run
  obtain ⟨_, mid, wrote, run⟩ := run_bind_eq_ok_iff.1 run
  obtain ⟨_, last, data, run⟩ := run_bind_eq_ok_iff.1 run
  obtain ⟨rfl, rfl⟩ := run_pure_eq_ok_iff.1 run
  refine ⟨Nat.lt_of_not_le fits, rfl, ?_⟩
  simp only [Sink.position_eq, (Sink.emits_write _ data).2, (Sink.emits_write _ wrote).2,
    List.length_append, LocalHeader.length_encode, Nat.add_assoc]

/-- A new entry is written as a layout of its directory record, and its bytes are counted. -/
theorem emitNew_eq_ok {name : String} {stamp : Timestamp} {compressed : Bytes}
    {crc32 size offset : UInt32} {sink sink' : Sink} {n : Nat} {record : DirectoryRecord}
    (run : emitNew name stamp compressed crc32 size sink = .ok n sink')
    (made : DirectoryRecord.newDeflated name stamp crc32 (UInt32.ofNat compressed.length) size
      offset = .ok record) :
    ∃ layout : Layout record, layout.data = compressed ∧
      layout.IsNew stamp crc32 size compressed ∧ sink'.bytes = sink.bytes ++ layout.bytes ∧
        n = layout.bytes.length := by
  unfold DirectoryRecord.newDeflated at made
  dsimp only at made
  split at made
  case isFalse => cases made
  next nameFits =>
  cases made
  unfold emitNew at run
  dsimp only at run
  rw [if_neg (Nat.not_le.2 nameFits)] at run
  split at run
  · cases run
  next fits =>
  obtain ⟨_, mid, wrote, run⟩ := run_bind_eq_ok_iff.1 run
  obtain ⟨_, last, data, run⟩ := run_bind_eq_ok_iff.1 run
  obtain ⟨rfl, rfl⟩ := run_pure_eq_ok_iff.1 run
  refine ⟨{
    header := LocalHeader.newDeflated stamp crc32 (UInt32.ofNat compressed.length) size
      (UInt16.ofNat (LossyUtf8.encode name).length)
    extra := []
    data := compressed
    descriptor := []
    agrees := ⟨rfl, rfl, fun _ => rfl, fun _ => rfl, fun _ => rfl⟩
    nameSize := UInt16.toNat_ofNat_of_lt' nameFits
    extraSize := rfl
    dataSize := (UInt32.toNat_ofNat_of_lt' (Nat.lt_of_not_le fits)).symm
    descriptorSize := by
      have absent : utf8Flag &&& descriptorFlag = 0 := by decide
      simp [DirectoryRecord.hasDescriptor, absent, descriptorLength] },
    rfl, ⟨rfl, rfl, rfl⟩, ?_, ?_⟩
  · rw [(Sink.emits_write _ data).2, (Sink.emits_write _ wrote).2]
    simp only [Layout.bytes, List.append_assoc, List.nil_append, List.append_nil]
  · rw [Layout.length_bytes]
    rfl

end LocalRecord
end ApkArchive

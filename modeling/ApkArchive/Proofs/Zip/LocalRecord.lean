import ApkArchive.Proofs.Storage.Range
import ApkArchive.Zip.LocalRecord

/-!
# Which local records are accepted

A local record is a header, the name, an extra field, the data and, if the header announces one, a
data descriptor. `Layout` holds these parts together with everything in which they have to agree
with the directory record of the entry. Locating an entry accepts the layouts and nothing else:

    locate entries record directory = ok found → entries has the bytes of a layout, and
      found is what the layout says
    entries has the bytes of a layout before directory → locate … = ok layout.found

A layout does not mention where it stands, so a record that is accepted at one place is accepted
wherever its bytes are copied to.
-/

namespace ApkArchive

/-- A sequence of computations that may fail succeeds if each of them does. -/
theorem bind_eq_ok_iff {x : Except ε α} {f : α → Except ε β} {b : β} :
    (x >>= f) = .ok b ↔ ∃ a, x = .ok a ∧ f a = .ok b := by
  cases x with
  | ok a =>
    constructor
    · intro h; exact ⟨a, rfl, h⟩
    · rintro ⟨_, ⟨⟩, h⟩; exact h
  | error e =>
    constructor
    · intro h; cases h
    · rintro ⟨_, h, _⟩; cases h

theorem ite_bind {c : Prop} [Decidable c] {x y : Except ε α} {f : α → Except ε β} :
    (if c then x >>= f else y >>= f) = (if c then x else y) >>= f := by
  split <;> rfl

theorem mapError_eq_ok_iff {x : Except ε α} {f : ε → ε'} {a : α} :
    x.mapError f = .ok a ↔ x = .ok a := by
  cases x with
  | ok b =>
    constructor
    · intro h; cases h; rfl
    · intro h; cases h; rfl
  | error e =>
    constructor
    · intro h; cases h
    · intro h; cases h

namespace LocalHeader

theorem run_read_eq_some_iff {bytes rest : Bytes} {header : LocalHeader} :
    read.run bytes = some (header, rest) ↔ bytes = header.encode ++ rest := by
  constructor
  · intro h
    unfold read at h
    simp only [Reader.run_word16_bind_eq_some_iff, Reader.run_word32_bind_eq_some_iff] at h
    obtain ⟨_, _, rfl, _, _, rfl, _, _, rfl, _, _, rfl, _, _, rfl, _, _, rfl, _, _, rfl,
      _, _, rfl, _, _, rfl, _, _, rfl, _, _, rfl, ⟨⟩⟩ := h
    simp only [encode, List.append_assoc]
  · rintro rfl
    unfold read
    simp only [encode, List.append_assoc, Reader.run_word16_bind, Reader.run_word32_bind]
    rfl

end LocalHeader

namespace LocalRecord

/-! ### The checks -/

/-- In what a local header has to agree with the directory record of its entry. With a data
descriptor, checksum and sizes are not compared. -/
structure Agrees (record : DirectoryRecord) (header : LocalHeader) : Prop where
  signed : header.signature = LocalHeader.magic
  descriptor : header.hasDescriptor = record.hasDescriptor
  crc32 : header.hasDescriptor = false → header.crc32 = record.crc32
  compressedSize : header.hasDescriptor = false → header.compressedSize = record.compressedSize
  uncompressedSize :
    header.hasDescriptor = false → header.uncompressedSize = record.uncompressedSize

theorem checkHeader_eq_ok_iff {record : DirectoryRecord} {header : LocalHeader} :
    checkHeader record header = .ok () ↔ Agrees record header := by
  unfold checkHeader
  dsimp only
  constructor
  · intro h
    split at h
    · cases h
    next signed =>
    split at h
    · cases h
    next descriptor =>
    refine ⟨Decidable.not_not.1 signed, Decidable.not_not.1 descriptor, ?_, ?_, ?_⟩ <;>
      intro absent <;> rw [if_pos (by simp [absent])] at h <;> split at h
    · cases h
    · next crc => exact Decidable.not_not.1 crc
    · cases h
    · split at h
      · cases h
      · next compressed => exact Decidable.not_not.1 compressed
    · cases h
    · split at h
      · cases h
      · split at h
        · cases h
        · next uncompressed => exact Decidable.not_not.1 uncompressed
  · intro agrees
    rw [if_neg (not_not_intro agrees.signed), if_neg (not_not_intro agrees.descriptor)]
    split
    · next absent =>
      have absent : header.hasDescriptor = false := by simpa using absent
      rw [if_neg (not_not_intro (agrees.crc32 absent)),
        if_neg (not_not_intro (agrees.compressedSize absent)),
        if_neg (not_not_intro (agrees.uncompressedSize absent))]
      rfl
    · rfl

/-- The local name is compared with as many bytes as the directory has, so it has to be all of
them. -/
theorem checkName_eq_ok_iff {record : DirectoryRecord} {nameSize : Nat} {bytes : Bytes}
    (size : bytes.length = record.nameBytes.length) :
    checkName record nameSize bytes = .ok () ↔
      nameSize = record.nameBytes.length ∧ bytes = record.nameBytes := by
  unfold checkName
  dsimp only
  constructor
  · intro h
    split at h
    · cases h
    · next short =>
      split at h
      · cases h
      · next same =>
        have same : bytes.take nameSize = record.nameBytes := Decidable.not_not.1 same
        have long : min nameSize bytes.length = record.nameBytes.length := by
          rw [← List.length_take, same]
        have exact : nameSize = record.nameBytes.length := by omega
        rw [List.take_of_length_le (by omega)] at same
        exact ⟨exact, same⟩
  · rintro ⟨rfl, rfl⟩
    rw [if_neg (Nat.lt_irrefl _), List.take_length, if_neg (not_not_intro rfl)]
    rfl

/-- The size of the data descriptor with which `bytes` begins, if one is expected. Its first four
bytes count only if they are the signature. -/
def descriptorLength (expected : Bool) (bytes : Bytes) : Nat :=
  if expected then
    if bytes.take 4 = Bytes.word32 descriptorMagic then descriptorSize + 4 else descriptorSize
  else 0

theorem descriptorLength_of_take {expected : Bool} {bytes bytes' : Bytes}
    (same : expected = true → bytes.take 4 = bytes'.take 4) :
    descriptorLength expected bytes = descriptorLength expected bytes' := by
  cases expected with
  | false => rfl
  | true => simp only [descriptorLength, if_true, same rfl]

/-- A descriptor of which the end was found has been looked at, and it ends before the directory. -/
theorem descriptorStop_eq_ok {entries : View} {name : String} {dataStop directory stop : Nat}
    (h : descriptorStop entries name dataStop directory = .ok (.ok stop)) :
    stop = dataStop + descriptorLength true (entries.bytes dataStop 4) ∧ stop ≤ directory := by
  have whole : (entries.bytes dataStop 4).take 4 = entries.bytes dataStop 4 :=
    List.take_of_length_le (by simp)
  rw [descriptorLength, if_pos rfl, whole]
  unfold descriptorStop at h
  dsimp only at h
  split at h
  · cases h
  next room =>
  obtain ⟨sign, read, h⟩ := bind_eq_ok_iff.1 h
  obtain ⟨_, _, rfl⟩ := View.copy_eq_ok_iff.1 read
  split at h
  · next unsigned =>
    cases h
    rw [if_neg unsigned]
    exact ⟨rfl, Nat.le_of_not_lt room⟩
  · next signed =>
    split at h
    · cases h
    · next fits =>
      cases h
      rw [if_pos (Decidable.not_not.1 signed)]
      exact ⟨rfl, Nat.le_of_not_lt fits⟩

theorem descriptorStop_of_holds {entries : View} {name : String} {dataStop directory stop : Nat}
    (bounded : directory ≤ entries.size) (room : dataStop + descriptorSize ≤ directory)
    (held : entries.Holds dataStop 4)
    (length : stop = dataStop + descriptorLength true (entries.bytes dataStop 4))
    (fits : stop ≤ directory) :
    descriptorStop entries name dataStop directory = .ok (.ok stop) := by
  have whole : (entries.bytes dataStop 4).take 4 = entries.bytes dataStop 4 :=
    List.take_of_length_le (by simp)
  have read : entries.copy dataStop 4 = .ok (entries.bytes dataStop 4) :=
    View.copy_eq_ok_iff.2 ⟨by simp only [descriptorSize] at room; omega, held, rfl⟩
  subst length
  rw [descriptorLength, if_pos rfl, whole] at fits ⊢
  unfold descriptorStop
  dsimp only
  rw [if_neg (Nat.not_lt.2 room), read]
  by_cases signed : entries.bytes dataStop 4 = Bytes.word32 descriptorMagic
  · rw [if_pos signed] at fits ⊢
    show (if entries.bytes dataStop 4 ≠ _ then _ else if _ then _ else _) = _
    rw [if_neg (not_not_intro signed), if_neg (by omega)]
    rfl
  · rw [if_neg signed]
    show (if entries.bytes dataStop 4 ≠ _ then _ else _) = _
    rw [if_pos signed]
    rfl

/-! ### Layouts -/

/-- The parts of a local record that agree with a directory record. -/
structure Layout (record : DirectoryRecord) where
  header : LocalHeader
  extra : Bytes
  data : Bytes
  descriptor : Bytes
  agrees : Agrees record header
  nameSize : header.nameSize.toNat = record.nameBytes.length
  extraSize : header.extraSize.toNat = extra.length
  dataSize : data.length = dataSizeOf record
  descriptorSize : descriptor.length = descriptorLength record.hasDescriptor descriptor

namespace Layout

variable {record : DirectoryRecord}

/-- All bytes of the local record. -/
def bytes (layout : Layout record) : Bytes :=
  layout.header.encode ++ (record.nameBytes ++ (layout.extra ++ (layout.data ++ layout.descriptor)))

/-- What is found where the local record stands. -/
def found (layout : Layout record) : LocalRecord where
  name := record.name
  nameSize := record.nameBytes.length
  extra := layout.extra
  start := record.localOffset.toNat
  size := layout.bytes.length
  dataSize := dataSizeOf record
  method := record.method
  uncompressedSize := record.uncompressedSize.toNat

theorem length_bytes (layout : Layout record) :
    layout.bytes.length = LocalHeader.fixedSize + record.nameBytes.length + layout.extra.length +
      layout.data.length + layout.descriptor.length := by
  simp only [bytes, List.length_append, LocalHeader.length_encode]
  omega

/-- After a header that agrees, the archive has the other parts: whatever bytes stand there. -/
theorem exists_of_header {entries : View} {header : LocalHeader} {dataStop : Nat}
    (agrees : Agrees record header) (nameSize : header.nameSize.toNat = record.nameBytes.length)
    (front : entries.Has record.localOffset.toNat (header.encode ++ record.nameBytes))
    (data : dataStop = record.localOffset.toNat + LocalHeader.fixedSize +
      record.nameBytes.length + header.extraSize.toNat + dataSizeOf record) :
    ∃ layout : Layout record, layout.header = header ∧
      layout.extra = entries.bytes (record.localOffset.toNat + LocalHeader.fixedSize +
        record.nameBytes.length) header.extraSize.toNat ∧
      record.localOffset.toNat + layout.bytes.length =
        dataStop + descriptorLength header.hasDescriptor (entries.bytes dataStop 4) ∧
      entries.Has record.localOffset.toNat layout.bytes := by
  let extraStart := record.localOffset.toNat + LocalHeader.fixedSize + record.nameBytes.length
  let tail := descriptorLength header.hasDescriptor (entries.bytes dataStop 4)
  -- The first four bytes decide how long the descriptor is, and they belong to it.
  have tailForm : tail = descriptorLength record.hasDescriptor (entries.bytes dataStop tail) := by
    rw [← agrees.descriptor]
    apply descriptorLength_of_take
    intro expected
    have long : 4 ≤ tail := by
      simp only [tail, expected, descriptorLength, if_true, LocalRecord.descriptorSize]
      split <;> omega
    rw [entries.take_bytes long, entries.take_bytes (Nat.le_refl 4)]
  refine ⟨{
    header, agrees, nameSize
    extra := entries.bytes extraStart header.extraSize.toNat
    data := entries.bytes (extraStart + header.extraSize.toNat) (dataSizeOf record)
    descriptor := entries.bytes dataStop tail
    extraSize := (entries.length_bytes _ _).symm
    dataSize := entries.length_bytes _ _
    descriptorSize := by rw [entries.length_bytes]; exact tailForm }, rfl, rfl, ?_, ?_⟩
  · rw [length_bytes]
    simp only [View.length_bytes]
    omega
  · rw [bytes, ← List.append_assoc, View.has_append_iff]
    refine ⟨front, ?_⟩
    rw [List.length_append, LocalHeader.length_encode, ← Nat.add_assoc, View.has_append_iff,
      View.has_append_iff]
    dsimp only
    rw [View.length_bytes, View.length_bytes, ← data]
    exact ⟨entries.has_bytes _ _, entries.has_bytes _ _, entries.has_bytes _ _⟩

/-! ### Reading the parts of a layout -/

section Parts

variable {entries : View} {directory : Nat} (layout : Layout record)

theorem extra_fits : layout.extra.length < 65536 :=
  layout.extraSize ▸ layout.header.extraSize.toNat_lt

theorem length_descriptor :
    layout.descriptor.length = descriptorLength layout.header.hasDescriptor layout.descriptor := by
  rw [layout.agrees.descriptor]
  exact layout.descriptorSize

theorem has_parts (has : entries.Has record.localOffset.toNat layout.bytes) :
    entries.Has record.localOffset.toNat (layout.header.encode ++ record.nameBytes) ∧
      entries.Has (record.localOffset.toNat + LocalHeader.fixedSize + record.nameBytes.length)
        layout.extra ∧
      entries.Has (record.localOffset.toNat + LocalHeader.fixedSize + record.nameBytes.length +
        layout.extra.length) layout.data ∧
      entries.Has (record.localOffset.toNat + LocalHeader.fixedSize + record.nameBytes.length +
        layout.extra.length + layout.data.length) layout.descriptor := by
  rw [Layout.bytes, ← List.append_assoc, View.has_append_iff, List.length_append,
    LocalHeader.length_encode, ← Nat.add_assoc] at has
  obtain ⟨front, rest⟩ := has
  rw [View.has_append_iff, View.has_append_iff] at rest
  exact ⟨front, rest⟩

theorem read_front
    (inside : record.localOffset.toNat + layout.bytes.length ≤ entries.size)
    (holds : entries.Holds record.localOffset.toNat layout.bytes.length)
    (has : entries.Has record.localOffset.toNat layout.bytes) :
    entries.read record.localOffset.toNat (LocalHeader.fixedSize + record.nameBytes.length) =
      .ok (layout.header.encode ++ record.nameBytes) := by
  obtain ⟨front, -⟩ := layout.has_parts has
  have length := layout.length_bytes
  have nameFits : record.nameBytes.length < 65536 := record.nameFits
  refine View.read_eq_ok_iff.2 ⟨by omega, ?_, holds.mono (Nat.le_refl _) (by omega), ?_⟩
  · simp only [View.maxBufferSize, LocalHeader.fixedSize]
    omega
  · rw [← front, List.length_append, LocalHeader.length_encode]

/-- The extra field, which is not read at all if it is empty. -/
theorem read_extra
    (inside : record.localOffset.toNat + layout.bytes.length ≤ entries.size)
    (holds : entries.Holds record.localOffset.toNat layout.bytes.length)
    (has : entries.Has record.localOffset.toNat layout.bytes) :
    (if layout.extra.length = 0 then pure [] else entries.read
      (record.localOffset.toNat + LocalHeader.fixedSize + record.nameBytes.length)
        layout.extra.length) = .ok layout.extra := by
  obtain ⟨-, extra, -⟩ := layout.has_parts has
  have length := layout.length_bytes
  have extraFits := layout.extra_fits
  split
  · next empty =>
    rw [List.length_eq_zero_iff.1 empty]
    rfl
  · refine View.read_eq_ok_iff.2 ⟨by omega, ?_, holds.mono (by omega) (by omega), extra.symm⟩
    simp only [View.maxBufferSize]
    omega

/-- A descriptor ends where its layout ends. -/
theorem descriptorStop_eq {name : String} (expected : layout.header.hasDescriptor = true)
    (bounded : directory ≤ entries.size)
    (inside : record.localOffset.toNat + layout.bytes.length ≤ directory)
    (holds : entries.Holds record.localOffset.toNat layout.bytes.length)
    (has : entries.Has record.localOffset.toNat layout.bytes) :
    descriptorStop entries name (record.localOffset.toNat + LocalHeader.fixedSize +
      record.nameBytes.length + layout.extra.length + layout.data.length) directory =
        .ok (.ok (record.localOffset.toNat + layout.bytes.length)) := by
  obtain ⟨-, -, -, descriptor⟩ := layout.has_parts has
  have length := layout.length_bytes
  have tail := layout.length_descriptor
  rw [expected] at tail
  have long : LocalRecord.descriptorSize ≤ layout.descriptor.length := by
    rw [tail, descriptorLength, if_pos rfl]
    split <;> omega
  have small : 4 ≤ layout.descriptor.length := Nat.le_trans (show 4 ≤ 12 by decide) long
  have same : descriptorLength true layout.descriptor =
      descriptorLength true (entries.bytes (record.localOffset.toNat + LocalHeader.fixedSize +
        record.nameBytes.length + layout.extra.length + layout.data.length) 4) := by
    apply descriptorLength_of_take
    intro _
    rw [← descriptor, entries.take_bytes small, entries.take_bytes (Nat.le_refl 4)]
  refine descriptorStop_of_holds bounded (by omega) (holds.mono (by omega) (by omega)) ?_ inside
  rw [← same, ← tail]
  omega

end Parts

end Layout

/-! ### Locating accepts layouts -/

/-- Everything that is known once a record was located: a header that agrees stands before the name,
both can be read, and so can the extra field that the header announces; data and data descriptor end
before the directory. -/
theorem locate_eq_ok {entries : View} {record : DirectoryRecord} {directory : Nat}
    {found : LocalRecord} (h : locate entries record directory = .ok found) :
    ∃ header extraStart dataStop stop, Agrees record header ∧
      header.nameSize.toNat = record.nameBytes.length ∧
      entries.Has record.localOffset.toNat (header.encode ++ record.nameBytes) ∧
      extraStart = record.localOffset.toNat + LocalHeader.fixedSize + record.nameBytes.length ∧
      dataStop = extraStart + header.extraSize.toNat + dataSizeOf record ∧
      stop = dataStop + descriptorLength header.hasDescriptor (entries.bytes dataStop 4) ∧
      stop ≤ directory ∧
      entries.Holds record.localOffset.toNat
        (LocalHeader.fixedSize + record.nameBytes.length) ∧
      entries.Holds extraStart header.extraSize.toNat ∧
      found = {
        name := record.name
        nameSize := record.nameBytes.length
        extra := entries.bytes extraStart header.extraSize.toNat
        start := record.localOffset.toNat
        size := stop - record.localOffset.toNat
        dataSize := dataSizeOf record
        method := record.method
        uncompressedSize := record.uncompressedSize.toNat } := by
  unfold locate at h
  dsimp only at h
  split at h
  · cases h
  next headerRoom =>
  rw [bind_eq_ok_iff] at h
  obtain ⟨bytes, read, h⟩ := h
  obtain ⟨_, _, frontHeld, rfl⟩ := View.read_eq_ok_iff.1 read
  split at h
  case h_2 => cases h
  next header nameBytes split =>
  rw [LocalHeader.run_read_eq_some_iff] at split
  rw [bind_eq_ok_iff] at h
  obtain ⟨_, checked, h⟩ := h
  have agrees := checkHeader_eq_ok_iff.1 (mapError_eq_ok_iff.1 checked)
  rw [bind_eq_ok_iff] at h
  obtain ⟨_, named, h⟩ := h
  -- As many bytes were read as the name of the directory record has.
  have nameLength : nameBytes.length = record.nameBytes.length := by
    have := congrArg List.length split
    simp only [View.length_bytes, List.length_append, LocalHeader.length_encode] at this
    omega
  obtain ⟨nameSize, rfl⟩ := (checkName_eq_ok_iff nameLength).1 (mapError_eq_ok_iff.1 named)
  have front : entries.Has record.localOffset.toNat (header.encode ++ record.nameBytes) := by
    rw [View.Has, ← split, View.length_bytes]
  rw [nameSize] at h
  split at h
  · cases h
  next dataRoom =>
  rw [ite_bind] at h
  rw [bind_eq_ok_iff] at h
  obtain ⟨extra, extraRead, h⟩ := h
  -- An empty extra field is not read at all.
  obtain ⟨rfl, extraHeld⟩ : extra = entries.bytes (record.localOffset.toNat +
      LocalHeader.fixedSize + record.nameBytes.length) header.extraSize.toNat ∧
        entries.Holds (record.localOffset.toNat + LocalHeader.fixedSize +
          record.nameBytes.length) header.extraSize.toNat := by
    split at extraRead
    · next empty =>
      cases extraRead
      rw [empty]
      exact ⟨rfl, .inl rfl⟩
    · obtain ⟨_, _, held, rfl⟩ := View.read_eq_ok_iff.1 extraRead
      exact ⟨rfl, held⟩
  refine ⟨header, _, _, _, agrees, nameSize, front, rfl, rfl, rfl, ?_⟩
  split at h
  · next expected =>
    rw [bind_eq_ok_iff] at h
    obtain ⟨_, stopRead, h⟩ := h
    rw [bind_eq_ok_iff] at h
    obtain ⟨stop, mapped, h⟩ := h
    rw [mapError_eq_ok_iff.1 mapped] at stopRead
    obtain ⟨rfl, inside⟩ := descriptorStop_eq_ok stopRead
    cases h
    rw [expected]
    exact ⟨inside, frontHeld, extraHeld, rfl⟩
  · next plain =>
    cases h
    rw [Bool.eq_false_iff.2 plain]
    exact ⟨Nat.le_of_not_lt dataRoom, frontHeld, extraHeld, rfl⟩

/-- The parts of a record that was located, read off the archive. -/
theorem locate_sound {entries : View} {record : DirectoryRecord} {directory : Nat}
    {found : LocalRecord} (h : locate entries record directory = .ok found) :
    ∃ layout : Layout record, found = layout.found ∧
      record.localOffset.toNat + layout.bytes.length ≤ directory ∧
        entries.Has record.localOffset.toNat layout.bytes := by
  obtain ⟨header, extraStart, dataStop, stop, agrees, nameSize, front, rfl, rfl, rfl, inside, -, -,
    rfl⟩ := locate_eq_ok h
  obtain ⟨layout, rfl, extra, stop, has⟩ := Layout.exists_of_header agrees nameSize front rfl
  rw [← stop] at inside ⊢
  refine ⟨layout, ?_, inside, has⟩
  rw [← extra, Nat.add_sub_cancel_left]
  rfl

/-- Up to its data, a record that was located can be read. -/
theorem holds_of_locate {entries : View} {record : DirectoryRecord} {directory : Nat}
    {found : LocalRecord} (h : locate entries record directory = .ok found) :
    entries.Holds found.start found.dataStart := by
  obtain ⟨header, extraStart, dataStop, stop, -, -, -, rfl, rfl, rfl, -, front, extra, rfl⟩ :=
    locate_eq_ok h
  rw [dataStart, extraStart, View.length_bytes]
  show entries.Holds record.localOffset.toNat
    (LocalHeader.fixedSize + record.nameBytes.length + header.extraSize.toNat)
  rcases extra with empty | held
  · rw [empty]
    exact front
  · exact .inr (by omega)

/-- The bytes of a layout, readable and before the directory, are located. -/
theorem locate_complete {entries : View} {record : DirectoryRecord} {directory : Nat}
    (layout : Layout record) (bounded : directory ≤ entries.size)
    (inside : record.localOffset.toNat + layout.bytes.length ≤ directory)
    (holds : entries.Holds record.localOffset.toNat layout.bytes.length)
    (has : entries.Has record.localOffset.toNat layout.bytes) :
    locate entries record directory = .ok layout.found := by
  have length := layout.length_bytes
  have readFront := layout.read_front (Nat.le_trans inside bounded) holds has
  have readExtra := layout.read_extra (Nat.le_trans inside bounded) holds has
  unfold locate
  dsimp only
  rw [if_neg (by omega)]
  refine bind_eq_ok_iff.2 ⟨_, readFront, ?_⟩
  rw [LocalHeader.run_read_eq_some_iff.2 rfl]
  refine bind_eq_ok_iff.2 ⟨(), mapError_eq_ok_iff.2 (checkHeader_eq_ok_iff.2 layout.agrees), ?_⟩
  refine bind_eq_ok_iff.2
    ⟨(), mapError_eq_ok_iff.2 ((checkName_eq_ok_iff rfl).2 ⟨layout.nameSize, rfl⟩), ?_⟩
  rw [layout.nameSize, layout.extraSize, ← layout.dataSize, if_neg (by omega), ite_bind]
  refine bind_eq_ok_iff.2 ⟨layout.extra, readExtra, ?_⟩
  have size : record.localOffset.toNat + layout.bytes.length - record.localOffset.toNat =
    layout.bytes.length := Nat.add_sub_cancel_left ..
  split
  · next expected =>
    refine bind_eq_ok_iff.2 ⟨.ok (record.localOffset.toNat + layout.bytes.length),
      layout.descriptorStop_eq expected bounded inside holds has, ?_⟩
    refine bind_eq_ok_iff.2 ⟨_, mapError_eq_ok_iff.2 rfl, ?_⟩
    rw [size, layout.dataSize]
    rfl
  · next plain =>
    have absent := layout.length_descriptor
    rw [Bool.eq_false_iff.2 plain, descriptorLength, if_neg Bool.false_ne_true] at absent
    refine bind_eq_ok_iff.2 ⟨record.localOffset.toNat + layout.bytes.length, ?_, ?_⟩
    · show Except.ok _ = _
      congr 1
      omega
    · rw [size, layout.dataSize]
      rfl

theorem name_of_locate {entries : View} {record : DirectoryRecord} {found : LocalRecord}
    (located : locate entries record entries.size = .ok found) : found.name = record.name := by
  obtain ⟨layout, rfl, -, -⟩ := locate_sound located
  rfl

end LocalRecord
end ApkArchive

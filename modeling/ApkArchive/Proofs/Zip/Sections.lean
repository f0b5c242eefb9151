import ApkArchive.Proofs.Zip.Directory
import ApkArchive.Proofs.Zip.LocalRecord
import ApkArchive.Zip.Sections

/-!
# The sections of an archive that was put together

An archive is read from its end. Once the end record is found, everything else follows from what
it says: where the directory is, and what stands right before it. So an archive that was put
together from entries, a signing block, a directory and an end record for these is read back as
what it was put together from, whatever the entries are.
-/

namespace ApkArchive

/-! ### End records -/

namespace EndRecord

theorem lastConsistent_of_short {bytes : Bytes} (short : bytes.length < fixedSize)
    (best : Option (EndRecord × Nat)) (offset : Nat) : lastConsistent best offset bytes = best := by
  induction bytes generalizing offset with
  | nil => rfl
  | cons byte rest ih =>
    have none : ofSuffix? (byte :: rest) = none := by
      unfold ofSuffix?
      split
      · next record parsed =>
        rw [parse_eq_ok_iff.1 parsed, length_encode] at short
        omega
      · rfl
    rw [lastConsistent, none]
    exact ih (Nat.lt_of_succ_lt short) (offset + 1)

/-- A record without a comment is found at the end of an archive. -/
theorem find_of_no_comment {apk : View} {front : Bytes} {record : EndRecord}
    (shows : apk.Shows (front ++ record.encode)) (plain : record.comment = [])
    (consistent : record.isConsistent = true) :
    find apk = .ok (some (record, front.length)) := by
  have length : record.encode.length = fixedSize := by
    rw [length_encode, plain, List.length_nil, Nat.add_zero]
  have size : apk.size = front.length + fixedSize := by
    rw [shows.size, List.length_append, length]
  have read : apk.read front.length fixedSize = .ok record.encode := by
    have split : front ++ record.encode = front ++ (record.encode ++ []) := by rw [List.append_nil]
    have bytes : apk.bytes front.length record.encode.length = record.encode := shows.has split
    rw [← bytes, length]
    exact shows.read front.length fixedSize (Nat.le_of_eq (by rw [List.length_append, length]))
      (by decide)
  have whole : ofSuffix? record.encode = some record := by
    rw [ofSuffix?, parse_eq_ok_iff.2 rfl]
    exact if_pos consistent
  -- The first of the two searches looks at exactly the bytes of the record.
  have found : search apk 0 = .ok (some (record, front.length)) := by
    rw [search, Nat.zero_min, size, Nat.add_sub_cancel, Nat.sub_zero, Nat.add_zero, read]
    cases encoded : record.encode with
    | nil => rw [encoded] at length; cases length
    | cons byte rest =>
      rw [encoded] at length whole
      have short : rest.length < fixedSize := by rw [← length]; exact Nat.lt_succ_self _
      show Except.ok (lastConsistent none front.length (byte :: rest)) = _
      rw [lastConsistent, whole, lastConsistent_of_short short]
  rw [find, if_neg (by omega), found]
  rfl

end EndRecord

/-! ### Signing blocks -/

namespace SigningBlock

/-- A byte string that is read as a signing block: its size stands at its start and before the
magic, and does not count its own first copy. -/
structure IsBlock (block : Bytes) : Prop where
  long : frameSize ≤ block.length
  short : block.length ≤ View.maxBufferSize
  header : LittleEndian.decode (block.take 8) = block.length - 8
  footer : LittleEndian.decode ((block.drop (block.length - footerSize)).take 8) = block.length - 8
  ends : block.drop (block.length - 16) = magic

instance (block : Bytes) : Decidable (IsBlock block) :=
  decidable_of_iff (frameSize ≤ block.length ∧ block.length ≤ View.maxBufferSize ∧
      LittleEndian.decode (block.take 8) = block.length - 8 ∧
      LittleEndian.decode ((block.drop (block.length - footerSize)).take 8) = block.length - 8 ∧
      block.drop (block.length - 16) = magic)
    ⟨fun ⟨long, short, header, footer, ends⟩ => ⟨long, short, header, footer, ends⟩,
      fun ⟨long, short, header, footer, ends⟩ => ⟨long, short, header, footer, ends⟩⟩

variable {apk : View}

/-- What stands before the directory and does not end in the magic is no signing block. -/
theorem find_of_not_suffix {front back : Bytes} (shows : apk.Shows (front ++ back))
    (plain : ¬ magic <:+ front) : find apk front.length = .ok .absent := by
  unfold find
  split
  · rfl
  next enough =>
  have long : 32 ≤ front.length := Nat.le_of_not_lt enough
  have footer := shows.read (front.length - footerSize) footerSize
    (by simp only [List.length_append, footerSize]; omega) (by decide)
  have magical : (apk.bytes (front.length - footerSize) footerSize).drop 8 =
      front.drop (front.length - 16) := by
    have part := shows.has_front.part (front.length - footerSize) footerSize
      (by simp only [footerSize]; omega)
    rw [Nat.zero_add] at part
    rw [part, List.take_of_length_le (by simp only [List.length_drop, footerSize]; omega),
      List.drop_drop]
    congr 1
    simp only [footerSize]
    omega
  refine bind_eq_ok_iff.2 ⟨_, footer, ?_⟩
  rw [magical, if_pos]
  · rfl
  · intro ends
    exact plain (ends ▸ List.drop_suffix _ _)

/-- A block that stands right before the directory is found. -/
theorem find_of_isBlock {front block back : Bytes} (shows : apk.Shows (front ++ (block ++ back)))
    (isBlock : IsBlock block) :
    ∃ found, find apk (front.length + block.length) = .ok (.found found) ∧
      found.offset = front.length := by
  have long : 32 ≤ block.length := isBlock.long
  have short : block.length ≤ 0x7FFFFFFF := isBlock.short
  have has : apk.Has front.length block := shows.has rfl
  have footerPlace : front.length + block.length - footerSize =
      front.length + (block.length - footerSize) := by
    simp only [footerSize]
    omega
  have footer := shows.read (front.length + block.length - footerSize) footerSize
    (by simp only [List.length_append, footerSize]; omega) (by decide)
  have footerBytes : apk.bytes (front.length + block.length - footerSize) footerSize =
      block.drop (block.length - footerSize) := by
    rw [footerPlace, has.part _ _ (by simp only [footerSize]; omega)]
    exact List.take_of_length_le (by simp only [List.length_drop, footerSize]; omega)
  have magical : (block.drop (block.length - footerSize)).drop 8 = magic := by
    rw [← isBlock.ends, List.drop_drop]
    congr 1
    simp only [footerSize]
    omega
  have header := shows.read front.length 8
    (by simp only [List.length_append]; omega) (by decide)
  have headerBytes : apk.bytes front.length 8 = block.take 8 := by
    have part := has.part 0 8 (by omega)
    rwa [Nat.add_zero, List.drop_zero] at part
  obtain ⟨whole, slice, -⟩ := shows.slice front.length block.length
    (by simp only [List.length_append]; omega)
  refine ⟨⟨front.length, whole⟩, ?_, rfl⟩
  unfold find
  rw [if_neg (by simp only [frameSize]; omega)]
  refine bind_eq_ok_iff.2 ⟨_, footer, ?_⟩
  rw [footerBytes, magical, if_neg (not_not_intro rfl)]
  dsimp only
  have total : block.length - 8 + 8 = block.length := by omega
  rw [isBlock.footer, if_neg, total, if_neg (by omega), Nat.add_sub_cancel]
  · refine bind_eq_ok_iff.2 ⟨_, header, ?_⟩
    rw [headerBytes, isBlock.header, if_neg (not_not_intro rfl)]
    exact bind_eq_ok_iff.2 ⟨_, slice, rfl⟩
  · rw [Bool.or_eq_true, decide_eq_true_eq, decide_eq_true_eq]
    simp only [footerSize, View.maxBufferSize]
    omega

/-- Whether what stands between the entries and the directory is read as it is meant: a block is
one, and without a block the entries do not end like one. -/
def Readable (front block : Bytes) : Prop := IsBlock block ∨ block = [] ∧ ¬ magic <:+ front

instance (front block : Bytes) : Decidable (Readable front block) :=
  inferInstanceAs (Decidable (_ ∨ _))

end SigningBlock

/-! ### Sections -/

namespace Sections

variable {apk : View} {sections : Sections}

theorem locate_eq_ok_iff :
    locate apk = .ok sections ↔
      EndRecord.find apk = .ok (some (sections.endRecord, sections.endOffset)) ∧
      sections.endRecord.isZip64 = false ∧
      sections.directoryOffset = sections.endRecord.directoryOffset.toNat ∧
      sections.directorySize = sections.endRecord.directorySize.toNat ∧
      sections.recordCount = sections.endRecord.totalEntries.toNat ∧
      sections.directoryOffset + sections.directorySize = sections.endOffset ∧
      SigningBlock.find apk sections.directoryOffset = .ok sections.beforeDirectory := by
  unfold locate
  constructor
  · intro h
    rw [bind_eq_ok_iff] at h
    obtain ⟨found, search, h⟩ := h
    split at h
    case h_2 => cases h
    next record offset =>
    split at h
    · cases h
    next small =>
    dsimp only at h
    split at h
    · cases h
    split at h
    · cases h
    next contiguous =>
    rw [bind_eq_ok_iff] at h
    obtain ⟨before, block, h⟩ := h
    cases h
    exact ⟨search, Bool.eq_false_iff.2 small, rfl, rfl, rfl, Decidable.not_not.1 contiguous, block⟩
  · rintro ⟨search, small, start, size, count, contiguous, block⟩
    refine bind_eq_ok_iff.2 ⟨_, search, ?_⟩
    dsimp only
    rw [small, if_neg Bool.false_ne_true, ← start, ← size, if_neg (by omega),
      if_neg (not_not_intro contiguous), ← count]
    exact bind_eq_ok_iff.2 ⟨_, block, rfl⟩

theorem readDirectory_eq_ok_iff {bytes : Bytes} :
    sections.readDirectory apk = .ok bytes ↔
      sections.directorySize ≤ View.maxBufferSize ∧
        apk.read sections.directoryOffset sections.directorySize = .ok bytes := by
  unfold readDirectory readDirectoryAt
  split
  · next large =>
    constructor
    · intro h; cases h
    · rintro ⟨small, _⟩
      omega
  · next small => exact ⟨fun h => ⟨Nat.le_of_not_lt small, h⟩, fun h => h.2⟩

end Sections

/-! ### Archives -/

/-- What an archive is made of, as far as it is read: where its sections are, its records in the
order of the directory, and what stands before signing block and directory. -/
structure View.IsArchive (apk : View) (sections : Sections) (records : List DirectoryRecord)
    (entries : View) : Prop where
  located : Sections.locate apk = .ok sections
  parsed : ∃ directory, sections.readDirectory apk = .ok directory ∧
    Directory.parse sections.recordCount sections.directoryOffset directory = .ok records
  sliced : apk.slice 0 sections.entriesSize = .ok entries

theorem View.IsArchive.distinct {apk : View} {sections : Sections}
    {records : List DirectoryRecord} {entries : View}
    (h : apk.IsArchive sections records entries) : (Directory.names records).Nodup := by
  obtain ⟨_, _, parsed⟩ := h.parsed
  exact (Directory.parse_eq_ok_iff.1 parsed).2.2

/-- The records that are read are the ones that stand where the end record says. -/
theorem View.IsArchive.records_eq {apk : View} {sections : Sections}
    {listed records : List DirectoryRecord} {entries : View}
    (h : apk.IsArchive sections listed entries)
    (has : apk.Has sections.directoryOffset (Directory.encode records))
    (size : sections.directorySize = (Directory.encode records).length)
    (count : sections.recordCount = records.length) (distinct : (Directory.names records).Nodup) :
    listed = records := by
  obtain ⟨directory, read, parsed⟩ := h.parsed
  obtain ⟨-, -, -, bytes⟩ := View.read_eq_ok_iff.1 (Sections.readDirectory_eq_ok_iff.1 read).2
  rw [size, has] at bytes
  rw [bytes, Directory.parse_eq_ok_iff.2 ⟨rfl, count.symm, distinct⟩] at parsed
  exact (Except.ok.inj parsed).symm

/-- What is found before the directory leaves the entries as they are, whether it is a block or
not. -/
theorem SigningBlock.Readable.find {apk : View} {front block back : Bytes}
    (readable : SigningBlock.Readable front block) (shows : apk.Shows (front ++ (block ++ back))) :
    ∃ before, SigningBlock.find apk (front.length + block.length) = .ok before ∧
      ∀ sections : Sections, sections.beforeDirectory = before →
        sections.directoryOffset = front.length + block.length →
          sections.entriesSize = front.length := by
  rcases readable with isBlock | ⟨rfl, plain⟩
  · obtain ⟨found, ok, start⟩ := SigningBlock.find_of_isBlock shows isBlock
    refine ⟨.found found, ok, ?_⟩
    intro sections what _
    rw [Sections.entriesSize, Sections.signingBlock?, what]
    exact start
  · refine ⟨.absent, SigningBlock.find_of_not_suffix shows plain, ?_⟩
    intro sections what place
    rw [Sections.entriesSize, Sections.signingBlock?, what]
    exact place

/-- An archive that was put together is read back. -/
theorem exists_isArchive {apk : View} {front block : Bytes} {records : List DirectoryRecord}
    {endRecord : EndRecord}
    (shows : apk.Shows (front ++ (block ++ (Directory.encode records ++ endRecord.encode))))
    (readable : SigningBlock.Readable front block)
    (search : EndRecord.find apk = .ok (some (endRecord,
      front.length + block.length + (Directory.encode records).length)))
    (small : endRecord.isZip64 = false)
    (offset : endRecord.directoryOffset.toNat = front.length + block.length)
    (size : endRecord.directorySize.toNat = (Directory.encode records).length)
    (count : endRecord.totalEntries.toNat = records.length)
    (short : (Directory.encode records).length ≤ View.maxBufferSize)
    (distinct : (Directory.names records).Nodup) :
    ∃ sections entries, apk.IsArchive sections records entries ∧ entries.Shows front := by
  obtain ⟨before, found, ends⟩ := readable.find shows
  have entriesFit : 0 + front.length ≤
      (front ++ (block ++ (Directory.encode records ++ endRecord.encode))).length := by
    simp only [List.length_append]
    omega
  obtain ⟨entries, slice, entriesShow⟩ := shows.slice 0 front.length entriesFit
  rw [List.drop_zero, List.take_left] at entriesShow
  refine ⟨{
    directoryOffset := front.length + block.length
    directorySize := (Directory.encode records).length
    recordCount := records.length
    endOffset := front.length + block.length + (Directory.encode records).length
    endRecord := endRecord
    beforeDirectory := before }, entries, ⟨?_, ?_, ?_⟩, entriesShow⟩
  · exact Sections.locate_eq_ok_iff.2
      ⟨search, small, offset.symm, size.symm, count.symm, rfl, found⟩
  · refine ⟨Directory.encode records, Sections.readDirectory_eq_ok_iff.2 ⟨short, ?_⟩,
      Directory.parse_eq_ok_iff.2 ⟨rfl, rfl, distinct⟩⟩
    have directory : apk.Has (front ++ block).length (Directory.encode records) :=
      shows.has (List.append_assoc front block _).symm
    rw [List.length_append] at directory
    rw [← directory, View.length_bytes]
    exact shows.read _ _ (by simp only [List.length_append]; omega) short
  · rw [ends _ rfl rfl]
    exact slice

end ApkArchive

import ApkArchive.Proofs.Zip.Archive

/-!
# How the sections tile an archive

On an archive that can be read completely nothing but the end record decides whether there are
sections: it is found, refers to no ZIP64 record, and the directory ends where it begins. What
stands before the directory is a signing block or is none, but never a reason to refuse. The
sections are ranges that follow each other, and nothing is left over:

    bytes = entries ++ (signing block ++ (directory ++ end record))
-/

namespace ApkArchive

variable {apk : View} {bytes : Bytes}

/-! ### Searches on what can be read -/

theorem exists_bind_eq_ok {α β : Type} {x : Except Error α} {f : α → Except Error β} {a : α}
    (run : x = .ok a) (rest : ∃ b, f a = .ok b) : ∃ b, (x >>= f) = .ok b := by
  obtain ⟨b, rest⟩ := rest
  exact ⟨b, bind_eq_ok_iff.2 ⟨a, run, rest⟩⟩

namespace EndRecord

theorem exists_find (shows : apk.Shows bytes) : ∃ found, find apk = .ok found := by
  by_cases somewhere : ∃ place record, ofSuffix? (bytes.drop place) = some record
  · obtain ⟨place, record, here⟩ := somewhere
    obtain ⟨last, place', isLast, -⟩ := exists_isLast here
    exact ⟨_, find_of_isLast shows isLast⟩
  · refine ⟨none, find_of_none shows ?_⟩
    intro place
    exact Option.eq_none_iff_forall_ne_some.2 fun record here => somewhere ⟨place, record, here⟩

end EndRecord

namespace SigningBlock

/-- What stands before a directory is a block, or it is none for some reason; it can be told
whatever stands there. -/
theorem exists_find (shows : apk.Shows bytes) {place : Nat} (inside : place ≤ bytes.length) :
    ∃ before, find apk place = .ok before := by
  unfold find
  split
  · exact ⟨_, rfl⟩
  next enough =>
  have long : 32 ≤ place := Nat.le_of_not_lt enough
  have footer := shows.read (place - footerSize) footerSize
    (by simp only [footerSize]; omega) (by decide)
  refine exists_bind_eq_ok footer ?_
  split
  · exact ⟨_, rfl⟩
  dsimp only
  generalize LittleEndian.decode ((apk.bytes (place - footerSize) footerSize).take 8) = size
  split
  · exact ⟨_, rfl⟩
  split
  · exact ⟨_, rfl⟩
  next fits =>
  -- The block, as long as it says it is, lies before the directory, so all of it can be read.
  have start : size + 8 ≤ place := Nat.le_of_not_lt fits
  refine exists_bind_eq_ok (shows.read (place - (size + 8)) 8 (by omega) (by decide)) ?_
  split
  · exact ⟨_, rfl⟩
  obtain ⟨contents, slice, -⟩ := shows.slice (place - (size + 8)) (size + 8) (by omega)
  exact exists_bind_eq_ok slice ⟨_, rfl⟩

/-- The block that is found is the one in which the bytes before the directory end. -/
theorem find_eq_found_iff {front back : Bytes} (shows : apk.Shows (front ++ back)) {start : Nat} :
    (∃ found, find apk front.length = .ok (.found found) ∧ found.offset = start) ↔
      IsBlock (front.drop start) := by
  constructor
  · rintro ⟨found, search, rfl⟩
    obtain ⟨size, framed, offset, -⟩ := framed_of_find search
    rw [offset]
    exact framed.isBlock shows
  · intro isBlock
    have long : 32 ≤ (front.drop start).length := isBlock.long
    rw [List.length_drop] at long
    rw [← List.take_append_drop start front, List.append_assoc] at shows
    obtain ⟨found, search, offset⟩ := find_of_isBlock shows isBlock
    rw [← List.length_append, List.take_append_drop] at search
    exact ⟨found, search, by rw [offset, List.length_take]; omega⟩

end SigningBlock

namespace Sections

/-! ### When there are sections -/

/-- What an end record has to say for its archive to have sections. -/
def Accepted (found : EndRecord × Nat) : Prop :=
  found.1.isZip64 = false ∧
    found.1.directoryOffset.toNat + found.1.directorySize.toNat = found.2

theorem exists_locate_iff (shows : apk.Shows bytes) :
    (∃ sections, locate apk = .ok sections) ↔
      ∃ found, EndRecord.find apk = .ok (some found) ∧ Accepted found := by
  constructor
  · rintro ⟨sections, located⟩
    obtain ⟨found, small, start, size, -, contiguous, -⟩ := locate_eq_ok_iff.1 located
    refine ⟨_, found, small, ?_⟩
    rw [← start, ← size, contiguous]
  · rintro ⟨⟨record, offset⟩, found, small, contiguous⟩
    have place := ((EndRecord.find_eq_ok_some_iff shows).1 found).place.1
    have inside : record.directoryOffset.toNat ≤ bytes.length := by
      simp only at contiguous
      omega
    obtain ⟨before, search⟩ := SigningBlock.exists_find shows inside
    refine ⟨{
      directoryOffset := record.directoryOffset.toNat
      directorySize := record.directorySize.toNat
      recordCount := record.totalEntries.toNat
      endOffset := offset
      endRecord := record
      beforeDirectory := before }, ?_⟩
    exact locate_eq_ok_iff.2 ⟨found, small, rfl, rfl, rfl, contiguous, search⟩

/-- Without sections an archive is malformed; no other error arises. -/
theorem format_of_locate (shows : apk.Shows bytes) {error : Error}
    (failed : locate apk = .error error) : ∃ fault location, error = .format fault location := by
  obtain ⟨found, search⟩ := EndRecord.exists_find shows
  cases found with
  | none =>
    rw [locate, search] at failed
    cases failed
    exact ⟨_, _, rfl⟩
  | some found =>
    obtain ⟨record, offset⟩ := found
    by_cases accepted : Accepted (record, offset)
    · obtain ⟨sections, located⟩ := (exists_locate_iff shows).2 ⟨_, search, accepted⟩
      rw [located] at failed
      cases failed
    rw [locate, search] at failed
    change (if _ then _ else _) = Except.error error at failed
    split at failed
    · cases failed
      exact ⟨_, _, rfl⟩
    next small =>
    dsimp only at failed
    split at failed
    · cases failed
      exact ⟨_, _, rfl⟩
    split at failed
    · cases failed
      exact ⟨_, _, rfl⟩
    next contiguous =>
    exact absurd ⟨Bool.eq_false_iff.2 small, Decidable.not_not.1 contiguous⟩ accepted

/-! ### What the sections are -/

/-- An archive cut along its sections. -/
structure Tiles (sections : Sections) (bytes entries block directory : Bytes) : Prop where
  whole : bytes = entries ++ (block ++ (directory ++ sections.endRecord.encode))
  entries_length : entries.length = sections.entriesSize
  block_ends : entries.length + block.length = sections.directoryOffset
  directory_length : directory.length = sections.directorySize
  directory_ends : entries.length + block.length + directory.length = sections.endOffset
  /-- What is reported as the signing block is what stands between entries and directory. -/
  reported : ∀ found, sections.signingBlock? = some found →
    found.offset = entries.length ∧ found.contents.Shows block
  unreported : sections.signingBlock? = none → block = []

variable {sections : Sections}

/-- The signing block is the block that stands right before the directory. -/
theorem signingBlock?_eq_some_iff {found : SigningBlock} :
    sections.signingBlock? = some found ↔ sections.beforeDirectory = .found found := by
  unfold signingBlock?
  cases sections.beforeDirectory <;> simp

theorem offset_signingBlock?_iff (shows : apk.Shows bytes) (located : locate apk = .ok sections)
    {start : Nat} :
    (∃ found, sections.signingBlock? = some found ∧ found.offset = start) ↔
      SigningBlock.IsBlock ((bytes.take sections.directoryOffset).drop start) := by
  obtain ⟨found, -, -, -, -, contiguous, before⟩ := locate_eq_ok_iff.1 located
  have place := ((EndRecord.find_eq_ok_some_iff shows).1 found).place.1
  have length : (bytes.take sections.directoryOffset).length = sections.directoryOffset := by
    rw [List.length_take]
    omega
  rw [← List.take_append_drop sections.directoryOffset bytes] at shows
  rw [← SigningBlock.find_eq_found_iff shows, length, before]
  simp only [signingBlock?_eq_some_iff, Except.ok.injEq]

theorem exists_tiles (shows : apk.Shows bytes) (located : locate apk = .ok sections) :
    ∃ entries block directory, sections.Tiles bytes entries block directory := by
  obtain ⟨found, -, -, -, -, contiguous, before⟩ := locate_eq_ok_iff.1 located
  have last := (EndRecord.find_eq_ok_some_iff shows).1 found
  have place := last.place.1
  have ends := entriesSize_le located
  refine ⟨bytes.take sections.entriesSize,
    (bytes.drop sections.entriesSize).take (sections.directoryOffset - sections.entriesSize),
    (bytes.drop sections.directoryOffset).take sections.directorySize, ?_, ?_, ?_, ?_, ?_, ?_, ?_⟩
  · have stop : bytes.drop sections.directoryOffset =
        (bytes.drop sections.directoryOffset).take sections.directorySize ++
          sections.endRecord.encode := by
      rw [last.encode_eq, ← contiguous, ← List.drop_drop, List.take_append_drop]
    have middle : bytes.drop sections.directoryOffset =
        (bytes.drop sections.entriesSize).drop
          (sections.directoryOffset - sections.entriesSize) := by
      rw [List.drop_drop, Nat.add_sub_of_le ends]
    rw [← stop, middle, List.take_append_drop, List.take_append_drop]
  · rw [List.length_take]
    omega
  · simp only [List.length_take, List.length_drop]
    omega
  · simp only [List.length_take, List.length_drop]
    omega
  · simp only [List.length_take, List.length_drop]
    omega
  · intro block reported
    have size : sections.entriesSize = block.offset := by rw [entriesSize, reported]
    rw [signingBlock?_eq_some_iff] at reported
    rw [reported] at before
    obtain ⟨length, framed, offset, slice⟩ := SigningBlock.framed_of_find before
    have inside := framed.inside
    obtain ⟨contents, slice', shown⟩ := shows.slice block.offset (length + 8) (by omega)
    rw [slice] at slice'
    cases slice'
    have total : sections.directoryOffset - sections.entriesSize = length + 8 := by omega
    rw [total, size]
    exact ⟨by rw [List.length_take]; omega, shown⟩
  · intro none
    rw [entriesSize, none, Nat.sub_self, List.take_zero]

/-- An archive that can be read has sections exactly if its end record is found, refers to no
ZIP64 record and stands right after the directory; otherwise it is malformed. The sections tile
the archive, and a signing block is among them exactly if a block ends where the directory
begins. -/
theorem sections_tile_archive (shows : apk.Shows bytes) :
    ((∃ sections, locate apk = .ok sections) ↔
        ∃ record offset, EndRecord.find apk = .ok (some (record, offset)) ∧
          record.isZip64 = false ∧
          record.directoryOffset.toNat + record.directorySize.toNat = offset) ∧
      (∀ error, locate apk = .error error → ∃ fault location, error = .format fault location) ∧
      ∀ sections, locate apk = .ok sections →
        (∃ entries block directory, sections.Tiles bytes entries block directory) ∧
        ∀ start, (∃ found, sections.signingBlock? = some found ∧ found.offset = start) ↔
          SigningBlock.IsBlock ((bytes.take sections.directoryOffset).drop start) := by
  refine ⟨?_, ?_, ?_⟩
  · rw [exists_locate_iff shows]
    constructor
    · rintro ⟨⟨record, offset⟩, found, accepted⟩
      exact ⟨record, offset, found, accepted⟩
    · rintro ⟨record, offset, found, accepted⟩
      exact ⟨(record, offset), found, accepted⟩
  · intro error failed
    exact format_of_locate shows failed
  · intro sections located
    refine ⟨exists_tiles shows located, ?_⟩
    intro start
    exact offset_signingBlock?_iff shows located

/-- The end record of an archive without entries, whose directory would begin after one byte that
is not used and a signing block without pairs. -/
def sampleEnd : EndRecord where
  diskNumber := 0
  directoryDisk := 0
  diskEntries := 0
  totalEntries := 0
  directorySize := 0
  directoryOffset := 33
  commentLength := 0
  comment := []

/-- The smallest block is found behind the byte that is not used. -/
theorem smallest_block_is_tile :
    let archive := 7 :: SigningBlock.encode [] ++ sampleEnd.encode
    (View.ofBytes archive).Shows archive ∧
      ∃ sections, locate (View.ofBytes archive) = .ok sections ∧
        (∃ entries block directory, sections.Tiles archive entries block directory) ∧
        ∃ found, sections.signingBlock? = some found ∧ found.offset = 1 := by
  intro archive
  have shows := View.shows_ofBytes archive
  obtain ⟨exists_iff, -, tiles⟩ := sections_tile_archive shows
  have found : EndRecord.find (View.ofBytes archive) = .ok (some (sampleEnd, 33)) :=
    EndRecord.find_of_no_comment shows rfl rfl
  obtain ⟨sections, located⟩ := exists_iff.2 ⟨sampleEnd, 33, found, rfl, rfl⟩
  have start : sections.directoryOffset = 33 := by
    obtain ⟨found', -, offset, -⟩ := locate_eq_ok_iff.1 located
    simp only [found, Except.ok.injEq, Option.some.injEq, Prod.mk.injEq] at found'
    rw [offset, ← found'.1]
    rfl
  refine ⟨shows, sections, located, (tiles sections located).1, ?_⟩
  rw [(tiles sections located).2, start]
  decide

end Sections
end ApkArchive

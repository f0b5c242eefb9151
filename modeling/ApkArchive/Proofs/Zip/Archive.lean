import ApkArchive.Proofs.Zip.EndRecord
import ApkArchive.Proofs.Zip.SigningBlock

/-!
# What an archive consists of

Whatever is found as an end record reaches to the end of the archive, and was read; so an archive
that is located can be read from its first byte to its last one. If its directory is read, too,
nothing else is missing, and the archive is

    entries, what stands before the directory, directory, end record
-/

namespace ApkArchive

variable {apk : View}

namespace EndRecord

theorem holds_of_search {limit : Nat} {found : Option (EndRecord × Nat)}
    (enough : fixedSize ≤ apk.size) (h : search apk limit = .ok found) : apk.Holds 0 apk.size := by
  unfold search at h
  obtain ⟨bytes, read, -⟩ := bind_eq_ok_iff.1 h
  obtain ⟨inside, -, holds, -⟩ := View.read_eq_ok_iff.1 read
  simp only [fixedSize] at enough inside holds
  rcases holds with none | held
  · omega
  · exact .inr (by omega)

/-- An archive with an end record can be read completely. -/
theorem shows_of_find {found : EndRecord × Nat} (h : find apk = .ok (some found)) :
    apk.Shows (apk.bytes 0 apk.size) := by
  refine ⟨(apk.length_bytes _ _).symm, ?_, rfl⟩
  unfold find at h
  split at h
  · cases h
  next enough =>
  obtain ⟨_, searched, _⟩ := bind_eq_ok_iff.1 h
  exact holds_of_search (Nat.le_of_not_lt enough) searched

end EndRecord

namespace Sections

variable {sections : Sections}

theorem entriesSize_le (located : locate apk = .ok sections) :
    sections.entriesSize ≤ sections.directoryOffset := by
  obtain ⟨-, -, -, -, -, -, before⟩ := locate_eq_ok_iff.1 located
  unfold entriesSize signingBlock?
  cases what : sections.beforeDirectory with
  | absent => exact Nat.le_refl _
  | ignored flaw => exact Nat.le_refl _
  | found block =>
    rw [what] at before
    obtain ⟨size, -, offset, -⟩ := SigningBlock.framed_of_find before
    show block.offset ≤ sections.directoryOffset
    omega

end Sections

namespace View

/-- An archive whose directory is found and parsed lacks nothing. -/
theorem exists_isArchive_of_parsed {sections : Sections} {directory : Bytes}
    {records : List DirectoryRecord} (located : Sections.locate apk = .ok sections)
    (read : sections.readDirectory apk = .ok directory)
    (parsed : Directory.parse sections.recordCount sections.directoryOffset directory =
      .ok records) : ∃ entries, apk.IsArchive sections records entries := by
  obtain ⟨inside, -⟩ := read_eq_ok_iff.1 (Sections.readDirectory_eq_ok_iff.1 read).2
  have before := Sections.entriesSize_le located
  have fits : 0 + sections.entriesSize ≤ apk.size := by omega
  refine ⟨⟨apk.store, apk.offset + 0, sections.entriesSize, ?_⟩, located, ⟨directory, read, parsed⟩,
    ?_⟩
  · have := apk.inside
    omega
  · exact slice_eq_ok_iff.2 ⟨fits, rfl, rfl, rfl⟩

namespace IsArchive

variable {sections sections' : Sections} {records records' : List DirectoryRecord}
variable {entries entries' : View}

/-- There is one way to read an archive. -/
theorem unique (archive : apk.IsArchive sections records entries)
    (archive' : apk.IsArchive sections' records' entries') :
    sections = sections' ∧ records = records' ∧ entries = entries' := by
  cases archive.located.symm.trans archive'.located
  obtain ⟨directory, read, parsed⟩ := archive.parsed
  obtain ⟨directory', read', parsed'⟩ := archive'.parsed
  cases read.symm.trans read'
  cases parsed.symm.trans parsed'
  cases archive.sliced.symm.trans archive'.sliced
  exact ⟨rfl, rfl, rfl⟩

theorem shows (archive : apk.IsArchive sections records entries) :
    apk.Shows (apk.bytes 0 apk.size) :=
  EndRecord.shows_of_find (Sections.locate_eq_ok_iff.1 archive.located).1

theorem size_entries (archive : apk.IsArchive sections records entries) :
    entries.size = sections.entriesSize :=
  (slice_eq_ok_iff.1 archive.sliced).2.2.2

theorem shows_entries (archive : apk.IsArchive sections records entries) :
    entries.Shows (entries.bytes 0 entries.size) := by
  obtain ⟨inside, store, offset, size⟩ := slice_eq_ok_iff.1 archive.sliced
  refine ⟨(entries.length_bytes _ _).symm, ?_, rfl⟩
  have held : apk.Holds 0 entries.size := archive.shows.holds.mono (Nat.zero_le _) (by omega)
  unfold Holds at held ⊢
  rwa [store, offset]

/-- The directory that was read is the encoding of the records. -/
theorem directory_eq (archive : apk.IsArchive sections records entries) :
    apk.bytes sections.directoryOffset sections.directorySize = Directory.encode records := by
  obtain ⟨directory, read, parsed⟩ := archive.parsed
  obtain ⟨-, -, -, rfl⟩ := read_eq_ok_iff.1 (Sections.readDirectory_eq_ok_iff.1 read).2
  exact (Directory.parse_eq_ok_iff.1 parsed).1

theorem size_directory (archive : apk.IsArchive sections records entries) :
    sections.directorySize = (Directory.encode records).length := by
  rw [← archive.directory_eq, length_bytes]

/-- The end record stands after the directory, and ends the archive. -/
theorem endRecord_eq (archive : apk.IsArchive sections records entries) :
    sections.endOffset ≤ apk.size ∧
      apk.bytes sections.endOffset (apk.size - sections.endOffset) =
        sections.endRecord.encode := by
  obtain ⟨found, -⟩ := Sections.locate_eq_ok_iff.1 archive.located
  have last := (EndRecord.find_eq_ok_some_iff archive.shows).1 found
  have place := last.place.1
  rw [length_bytes] at place
  refine ⟨by omega, ?_⟩
  rw [last.encode_eq, drop_bytes, Nat.zero_add]

/-- What stands between entries and directory. -/
def between (apk : View) (sections : Sections) : Bytes :=
  apk.bytes sections.entriesSize (sections.directoryOffset - sections.entriesSize)

/-- All bytes of an archive. -/
theorem bytes_eq (archive : apk.IsArchive sections records entries) :
    apk.bytes 0 apk.size = entries.bytes 0 entries.size ++
      (between apk sections ++ (Directory.encode records ++ sections.endRecord.encode)) := by
  obtain ⟨-, -, -, -, -, contiguous, -⟩ := Sections.locate_eq_ok_iff.1 archive.located
  have before := Sections.entriesSize_le archive.located
  obtain ⟨inside, endRecord⟩ := archive.endRecord_eq
  have directory := archive.directory_eq
  have size : sections.directorySize = sections.endOffset - sections.directoryOffset := by omega
  have start := apk.bytes_join (Nat.zero_le _) before
  have middle := apk.bytes_join (Nat.zero_le sections.directoryOffset)
    (Nat.le.intro contiguous)
  have stop := apk.bytes_join (Nat.zero_le sections.endOffset) inside
  simp only [Nat.sub_zero] at start middle stop
  rw [bytes_of_slice archive.sliced, archive.size_entries, between, ← endRecord, ← directory, size,
    Nat.zero_add, ← List.append_assoc, ← List.append_assoc, start, middle, stop]

/-- Without a signing block nothing stands between entries and directory. -/
theorem between_of_no_block (none : sections.signingBlock? = none) : between apk sections = [] := by
  have same : sections.entriesSize = sections.directoryOffset := by rw [Sections.entriesSize, none]
  rw [between, same, Nat.sub_self]
  rfl

end IsArchive
end View
end ApkArchive

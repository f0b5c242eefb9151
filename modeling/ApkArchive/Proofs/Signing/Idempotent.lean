import ApkArchive.Proofs.Signing.Aligned
import ApkArchive.Proofs.Signing.PassThrough
import ApkArchive.Proofs.Signing.Unchanged
import ApkArchive.Proofs.Zip.Alike

/-!
# Rewriting twice is rewriting once

Whatever the input looks like, its local records do not overlap in the output, and each one is
where it was planned to be: planned again for the same place, it stays as it is. So the output is in
order, and an archive in order is rewritten unchanged. The comment has been padded already, and the
entries that were to be dropped are gone.
-/

namespace ApkArchive

/-- Setting the fields that a record has already does not change it. -/
theorem EndRecord.PaddedTo.withDirectory {record padded : EndRecord} {count : UInt16}
    {size offset : UInt32} (h : (record.withDirectory count size offset).PaddedTo padded)
    (moved : UInt32) :
    (padded.withDirectoryOffset moved).withDirectory count size moved =
      padded.withDirectoryOffset moved := by
  obtain ⟨_, _, rfl⟩ := h
  rfl

namespace Signing

/-! ### The pieces of the output do not overlap -/

/-- The entries that were written follow each other in the output. -/
theorem Laid.follow {entries : View} {covered offset covered' : Nat} {pieces : List Piece}
    (laid : Laid entries covered offset pieces covered') :
    pieces.Pairwise fun a b => a.offset + a.written.length ≤ b.offset := by
  induction laid with
  | nil => exact .nil
  | @cons covered offset covered' piece rest gap place laid ih =>
    refine List.pairwise_cons.2 ⟨?_, ih⟩
    intro other mem
    obtain ⟨front, back, split⟩ := List.append_of_mem mem
    rw [laid.place split]
    exact Nat.le_add_right ..

namespace Outcome

variable {config : Config} {input view : View} {deflate : Bytes → Bytes}
variable (outcome : Outcome config input deflate)

/-- An entry that was kept is where it was planned to be, so it stays there if it is planned
again. -/
theorem exists_located_moved {rest : Bytes} (shows : view.Shows (outcome.body ++ rest))
    {piece : Piece} (mem : piece ∈ outcome.pieces) (isKept : piece.isKept = true) :
    ∃ found, LocalRecord.locate view piece.moved view.size = .ok found ∧
      found.start = piece.offset ∧ found.stop = piece.offset + piece.written.length ∧
        config.alignment.plan found found.start = .unchanged := by
  have sound := outcome.sound piece mem
  obtain ⟨new, copied, placed⟩ := outcome.placed_moved shows mem isKept
  have well := wellPlaced_of_copied copied sound.has placed
  have start : (new.move (UInt32.ofNat piece.offset)).found.start = piece.offset :=
    UInt32.toNat_ofNat_of_lt' copied.offsetFits
  have written : piece.written = new.bytes := by
    obtain ⟨new', copied', written⟩ := sound.kept isKept
    obtain ⟨_, rfl⟩ := copied.planned
    obtain ⟨_, rfl⟩ := copied'.planned
    exact written
  refine ⟨(new.move (UInt32.ofNat piece.offset)).found, placed.located, start, ?_, ?_⟩
  · rw [LocalRecord.stop, start, written]
    rfl
  · rw [Alignment.Policy.plan_start_eq_unchanged_iff]
    cases preserved : config.alignment.preserve with
    | true => exact .inl rfl
    | false =>
      -- Name and method are those of the old record, so the boundary is, too.
      have boundary : config.alignment.boundary (new.move (UInt32.ofNat piece.offset)).found =
        config.alignment.boundary piece.layout.found := rfl
      right
      rw [boundary]
      rcases Nat.lt_or_ge 1 (config.alignment.boundary piece.layout.found) with many | one
      · exact well.aligned many (.inl preserved)
      · have := config.alignment.boundary_pos piece.layout.found
        rw [Nat.le_antisymm one this, Nat.mod_one]

/-- The entries that were kept are in order in the output, whatever stands after them. -/
theorem inOrder_keptRecords_append {rest : Bytes} (shows : view.Shows (outcome.body ++ rest)) :
    InOrder config.alignment view outcome.keptRecords where
  located := by
    intro record mem
    obtain ⟨piece, mem', rfl⟩ := List.mem_map.1 mem
    obtain ⟨listed, isKept⟩ := List.mem_filter.1 mem'
    obtain ⟨found, located, -, -, stays⟩ :=
      outcome.exists_located_moved shows (outcome.perm.mem_iff.1 listed) isKept
    exact ⟨found, located, stays⟩
  apart := by
    rw [keptRecords, List.pairwise_map]
    -- Whichever of two pieces comes first in the output, it ends before the other one begins.
    have apart : (outcome.pieces.filter Piece.isKept).Pairwise
        fun a b => Apart view a.moved b.moved := by
      have follow := outcome.laid.follow.filter Piece.isKept
      refine follow.imp_of_mem ?_
      intro a b first second before found found' located located'
      obtain ⟨mem, isKept⟩ := List.mem_filter.1 first
      obtain ⟨mem', isKept'⟩ := List.mem_filter.1 second
      obtain ⟨_, at_a, -, stop, -⟩ := outcome.exists_located_moved shows mem isKept
      obtain ⟨_, at_b, start, -, -⟩ := outcome.exists_located_moved shows mem' isKept'
      cases located.symm.trans at_a
      cases located'.symm.trans at_b
      exact .inl (by omega)
    exact ((outcome.perm.filter _).pairwise_iff fun h => h.symm).2 apart

theorem inOrder_keptRecords (shows : view.Shows outcome.body) :
    InOrder config.alignment view outcome.keptRecords := by
  rw [← List.append_nil outcome.body] at shows
  exact outcome.inOrder_keptRecords_append shows

/-- A reader that finds the end record which was written, and no signing block, finds the entries
and the directory that were written. -/
theorem Describes.exists_isArchive_of_unsigned {outcome : Outcome config input deflate}
    {final : Session σ} (described : outcome.Describes final) (nothing : outcome.request.bytes = [])
    (shows : view.Shows outcome.bytes) {sections : Sections}
    (located : Sections.locate view = .ok sections) (same : sections.endRecord = outcome.endRecord)
    (unsigned : sections.signingBlock? = none) :
    ∃ entries, view.IsArchive sections outcome.directory entries ∧ entries.Shows outcome.body := by
  obtain ⟨-, -, start, length, number, -, -⟩ := Sections.locate_eq_ok_iff.1 located
  obtain ⟨offset, size, count⟩ := described.endRecord_fields
  rw [← BlockRequest.length_bytes, nothing, List.length_nil, Nat.add_zero] at offset
  rw [same, offset] at start
  rw [same, size] at length
  rw [same, count] at number
  rw [bytes, nothing, List.nil_append] at shows
  have short : (Directory.encode outcome.directory).length ≤ View.maxBufferSize := by
    rw [← Directory.size_eq]
    exact described.closed.sizeFits
  obtain ⟨entries, slice, entriesShow⟩ := shows.slice 0 outcome.body.length
    (by simp only [List.length_append]; omega)
  rw [List.drop_zero, List.take_left] at entriesShow
  refine ⟨entries, ⟨located, ⟨Directory.encode outcome.directory, ?_, ?_⟩, ?_⟩, entriesShow⟩
  · refine Sections.readDirectory_eq_ok_iff.2 ⟨by rwa [length], ?_⟩
    have directory : view.Has outcome.body.length (Directory.encode outcome.directory) :=
      shows.has rfl
    rw [start, length, shows.read _ _ (by simp only [List.length_append]; omega) short, directory]
  · exact Directory.parse_eq_ok_iff.2 ⟨rfl, number.symm, described.distinct⟩
  · rw [Sections.entriesSize, unsigned, start]
    exact slice

end Outcome

/-! ### The second run -/

namespace PassThrough

variable {strip : Bool} {config : Config} {input : View} {deflate : Bytes → Bytes}
variable {start : Bool} {sink : Sink} {summary : Summary} {final : Session Bool}

theorem steady (strip : Bool) :
    (engine strip).Steady (fun name => keeps strip name = true) none none where
  inputBlock block before := ⟨block.isSome, rfl⟩
  inputEntry name kept := by
    refine ⟨none, fun before => ⟨before, ?_⟩⟩
    rw [inputEntry_of_keeps kept]
    rfl
  outputEntry _ before := ⟨before, rfl⟩
  newEntries before := ⟨before, rfl⟩
  newEntriesWritten before := ⟨before, rfl⟩
  signingBlock _ before := ⟨before, rfl⟩
  blockWritten before := ⟨before, rfl⟩
  finished before := ⟨before, rfl⟩

theorem rewriting_is_idempotent
    (run : (sign (engine strip) config input deflate).run { engine := start, output := sink } =
      .ok summary final) :
    ∃ directory endRecord, final.EndsIn directory endRecord ∧
      ∀ (output : View) (sections : Sections), output.Shows final.output.bytes →
        Sections.locate output = .ok sections → sections.endRecord = endRecord →
        sections.signingBlock? = none →
        ∀ (deflate' : Bytes → Bytes) (start' : Bool) (sink' : Sink), sink'.Open →
          sink'.bytes = [] →
          ∃ summary' final',
            (sign (engine strip) config output deflate').run { engine := start', output := sink' } =
              .ok summary' final' ∧
            final'.output.bytes = final.output.bytes ∧ summary'.realigned = 0 ∧
            summary'.skipped = 0 := by
  obtain ⟨outcome, described, nothing⟩ := sign_eq_ok run
  refine ⟨outcome.directory, outcome.endRecord, described.endsIn, ?_⟩
  intro output sections shows located same unsigned deflate' start' sink' isOpen empty
  rw [described.output] at shows
  obtain ⟨entries, archive, entriesShow⟩ :=
    described.exists_isArchive_of_unsigned nothing.request_bytes shows located same unsigned
  have inOrder := outcome.inOrder_keptRecords entriesShow
  rw [← nothing.directory_eq] at inOrder
  have named : ∀ record ∈ outcome.directory, keeps strip record.name = true := by
    intro record mem
    rw [nothing.directory_eq] at mem
    obtain ⟨piece, mem', rfl⟩ := List.mem_map.1 mem
    obtain ⟨listed, isKept⟩ := List.mem_filter.1 mem'
    rw [nothing.kept piece (outcome.perm.mem_iff.1 listed)] at isKept
    exact isKept
  have request : outcome.request = .orEmpty none := congrArg BlockRequest.orEmpty nothing.request
  have offsetFits := described.closed.offsetFits
  -- The second run writes its end record over the same fields, so it is the same end record.
  have written : outcome.body ++
      closingBytes sections.endRecord outcome.body outcome.directory outcome.request =
        final.output.bytes := by
    have endRecord : sections.endRecord.withDirectory (UInt16.ofNat outcome.directory.length)
        (UInt32.ofNat (Directory.size outcome.directory))
          (UInt32.ofNat (outcome.body.length + outcome.request.size)) = outcome.endRecord := by
      rw [same]
      exact described.closed.negotiated.last_padded.withDirectory _
    rw [described.output, Outcome.bytes, closingBytes, endRecord]
  have aligned := described.aligned
  rw [← written] at aligned
  rw [nothing.request] at offsetFits
  rw [request] at aligned written
  obtain ⟨summary', completes, unchanged⟩ := completes_sign_of_no_additions (steady strip) deflate'
    archive entriesShow inOrder named offsetFits aligned
  obtain ⟨final', run', -, wrote⟩ := @completes { engine := start', output := sink' } isOpen empty
  refine ⟨summary', final', run', ?_, unchanged.realigned, unchanged.skipped⟩
  rw [wrote, List.nil_append, written]

/-- The entry of the sample is aligned by the first run and left alone by the second one. -/
theorem sample_is_rewritten_once :
    ∃ summary final summary' final',
      rewrite false { sizeMultiple := some 16 }
        (Sample.entries ++ Sample.record.encode ++ Sample.endRecord.encode) = .ok summary final ∧
      rewrite false { sizeMultiple := some 16 } final.output.bytes = .ok summary' final' ∧
      final'.output.bytes = final.output.bytes ∧ summary'.realigned = 0 ∧ summary'.skipped = 0 := by
  have readable : rewrites false { sizeMultiple := some 16 }
      (Sample.entries ++ Sample.record.encode ++ Sample.endRecord.encode) (fun final sections =>
        sections.signingBlock?.isNone && writes (· = sections.endRecord) final) = true := by
    decide +kernel
  obtain ⟨summary, final, sections, result, located, holds⟩ := exists_of_rewrites readable
  rw [Bool.and_eq_true, Option.isNone_iff_eq_none] at holds
  obtain ⟨directory, endRecord, ends, again⟩ := rewriting_is_idempotent result
  have same : endRecord = sections.endRecord := of_decide_eq_true (ends.of_writes holds.2)
  obtain ⟨summary', final', result', bytes, realigned, skipped⟩ :=
    again _ sections (View.shows_ofBytes _) located same.symm holds.1 Deflate.deflate false {}
      (fun _ _ _ => rfl) rfl
  exact ⟨summary, final, summary', final', result, result', bytes, realigned, skipped⟩

end PassThrough

/-! ### Two entries

Archives with two entries, a byte before the first one and some between them. The data of both
stands at multiples of eight. -/

namespace Sample

/-- Nothing is aligned. -/
def plain : Config where
  alignment := { default := 0 }

/-- The record of an entry like the one of the sample, with another name and at another place. -/
def recordAt (letter : UInt8) (offset : UInt32) : DirectoryRecord :=
  { record with
    localOffset := offset
    nameBytes := [letter]
    nameFits := Nat.le_of_ble_eq_true rfl }

def twoEntries : Bytes :=
  [7] ++ (header.encode ++ [0x61] ++ data) ++ [8, 8, 8, 8, 8, 8] ++
    (header.encode ++ [0x62] ++ data)

def twoEnd : EndRecord :=
  { endRecord with
    diskEntries := 2
    totalEntries := 2
    directorySize := 94
    directoryOffset := 75 }

/-- The archive with the two entries whose directory consists of the given records. -/
def listing (records : List DirectoryRecord) : Bytes :=
  twoEntries ++ (Directory.encode records ++ twoEnd.encode)

/-- The local record of an entry. -/
def foundAt (name : String) (start : Nat) : LocalRecord where
  name
  nameSize := 1
  extra := []
  start
  size := 34
  dataSize := 3
  method := .stored
  uncompressedSize := 3

theorem exists_isArchive_listing (records : List DirectoryRecord)
    (length : (Directory.encode records).length = 94) (count : records.length = 2)
    (distinct : (Directory.names records).Nodup) :
    ∃ sections entries, (View.ofBytes (listing records)).IsArchive sections records entries ∧
      entries.Shows twoEntries ∧ sections.directoryOffset = twoEntries.length ∧
      sections.directorySize = (Directory.encode records).length := by
  have shows : (View.ofBytes (listing records)).Shows
      (twoEntries ++ ([] ++ (Directory.encode records ++ twoEnd.encode))) :=
    View.shows_ofBytes (listing records)
  have alone : (View.ofBytes (listing records)).Shows
      (twoEntries ++ Directory.encode records ++ twoEnd.encode) := by
    rw [List.append_assoc]
    exact shows
  have search := EndRecord.find_of_no_comment alone rfl rfl
  rw [List.length_append] at search
  obtain ⟨sections, entries, archive, entriesShow⟩ := exists_isArchive shows
    (.inr ⟨rfl, by decide⟩) search (by decide) (by decide) (by rw [length]; rfl)
    (by rw [count]; rfl) (by rw [length]; decide) distinct
  refine ⟨sections, entries, archive, entriesShow, ?_, archive.size_directory⟩
  obtain ⟨found, -, offset, -⟩ := Sections.locate_eq_ok_iff.1 archive.located
  rw [search, Except.ok.injEq, Option.some.injEq, Prod.mk.injEq] at found
  rw [offset, ← found.1]
  rfl

/-- What a record in the directory finds does not depend on where the entries are stored. -/
theorem locate_of_shows {entries : View} (shows : entries.Shows twoEntries)
    (record : DirectoryRecord) : LocalRecord.locate entries record entries.size =
      LocalRecord.locate (View.ofBytes twoEntries) record 75 := by
  rw [LocalRecord.locate_of_alike ⟨_, shows, View.shows_ofBytes _⟩, shows.size]
  rfl

theorem locate_twoEntries {entries : View} (shows : entries.Shows twoEntries) :
    LocalRecord.locate entries (recordAt 0x61 1) entries.size = .ok (foundAt "a" 1) ∧
      LocalRecord.locate entries (recordAt 0x62 41) entries.size = .ok (foundAt "b" 41) := by
  rw [locate_of_shows shows, locate_of_shows shows]
  decide +kernel

theorem apart_twoEntries {entries : View} (shows : entries.Shows twoEntries)
    {records : List DirectoryRecord} (perm : records.Perm [recordAt 0x61 1, recordAt 0x62 41]) :
    records.Pairwise (Apart entries) := by
  obtain ⟨first, second⟩ := locate_twoEntries shows
  refine (perm.pairwise_iff fun h => h.symm).2 (List.pairwise_pair.2 ?_)
  intro found found' here here'
  cases first.symm.trans here
  cases second.symm.trans here'
  exact .inl (by decide)

end Sample
end Signing
end ApkArchive

import ApkArchive.Proofs.Signing.Entries
import Mathlib.Data.List.Forall2

/-!
# A signed archive is read back

Reading the output gives the entries that were kept, in the order of the input directory, and then
the new ones. Every one of them is accepted, and the data of an entry that was kept comes out as it
did before, whether it can be read or not.

What is read depends on which end record is found first and on what looks like a signing block, and
the engine has a hand in both. So the end record has to be found where it was written, and the block
has to be one.
-/

namespace ApkArchive.Signing

open LocalRecord (Layout)

/-- An entry of the input and its copy in the output. -/
structure ReadsAs (entries entries' : View) (old new : DirectoryRecord) : Prop where
  front : new.encode.take 42 = old.encode.take 42
  back : new.encode.drop 46 = old.encode.drop 46
  data : ∃ found found', LocalRecord.locate entries old entries.size = .ok found ∧
    LocalRecord.locate entries' new entries'.size = .ok found' ∧
      found'.emitData entries' = found.emitData entries

/-- A new entry in the output. -/
structure AddedAs (deflate : Bytes → Bytes) (entries' : View) (entry : NewEntry)
    (new : DirectoryRecord) : Prop where
  name : new.name = entry.name
  crc32 : new.crc32 = Crc32.checksum entry.data
  size : new.uncompressedSize.toNat = entry.data.length
  data : ∃ found', LocalRecord.locate entries' new entries'.size = .ok found' ∧
    entries'.bytes (found'.start + found'.dataStart) found'.dataSize = deflate entry.data

namespace Outcome

variable {config : Config} {input view : View} {deflate : Bytes → Bytes} {rest : Bytes}
variable (outcome : Outcome config input deflate)

/-- A copy is read like its original: it is located, and its data is the same. -/
theorem readsAs (shows : view.Shows (outcome.body ++ rest)) {piece : Piece}
    (mem : piece ∈ outcome.pieces) (isKept : piece.isKept = true) :
    ReadsAs outcome.entries view piece.record piece.moved := by
  have sound := outcome.sound piece mem
  obtain ⟨new, copied, placed⟩ := outcome.placed_moved shows mem isKept
  obtain ⟨front, back⟩ := piece.record.encode_withLocalOffset (UInt32.ofNat piece.offset)
  have input := piece.layout.feed_data sound.has sound.inside copied.held
  obtain ⟨fits, rfl⟩ := copied.planned
  exact ⟨front, back, _, _, sound.located, placed.located,
    LocalRecord.emitData_congr rfl rfl rfl (placed.feed.trans input.symm)⟩

/-- A new entry is read as it was written. -/
theorem addedAs (shows : view.Shows (outcome.body ++ rest)) {addition : Addition}
    (mem : addition ∈ outcome.additions) :
    AddedAs deflate view addition.entry addition.record := by
  obtain ⟨_, sound⟩ := outcome.appended.exists_sound mem
  have placed := outcome.placed_addition shows mem
  refine ⟨sound.record_name, sound.crc32, sound.size, _, placed.located, ?_⟩
  have data := addition.layout.has_data placed.has
  rw [View.Has, addition.layout.dataSize, sound.data] at data
  exact data

/-- An output whose end record is found is read as what it was put together from. -/
theorem exists_isArchive {final : Session σ} (described : outcome.Describes final)
    (shows : view.Shows final.output.bytes)
    (search : EndRecord.find view =
      .ok (some (outcome.endRecord, view.size - outcome.endRecord.encode.length)))
    (small : outcome.endRecord.isZip64 = false)
    (readable : SigningBlock.Readable (outcome.body ++ Bytes.zeros outcome.request.padding)
      outcome.request.block) :
    ∃ sections entries, view.IsArchive sections outcome.directory entries ∧
      entries.Shows (outcome.body ++ Bytes.zeros outcome.request.padding) := by
  have split : final.output.bytes = (outcome.body ++ Bytes.zeros outcome.request.padding) ++
      (outcome.request.block ++
        (Directory.encode outcome.directory ++ outcome.endRecord.encode)) := by
    rw [described.output, bytes, BlockRequest.bytes]
    simp only [List.append_assoc]
  rw [split] at shows
  obtain ⟨offset, size, count⟩ := described.endRecord_fields
  have total : (outcome.body ++ Bytes.zeros outcome.request.padding).length +
      outcome.request.block.length = outcome.body.length + outcome.request.size := by
    rw [List.length_append, Bytes.length_zeros, BlockRequest.size, Nat.add_assoc]
  refine ApkArchive.exists_isArchive shows readable ?_ small (by rw [offset, total]) size count ?_
    described.distinct
  · rw [search, shows.size]
    simp only [List.length_append, Nat.add_sub_cancel, ← Nat.add_assoc]
  · rw [← Directory.size_eq]
    exact described.closed.sizeFits

end Outcome

theorem signed_archive_reads_back {engine : Engine σ} {config : Config} {input : View}
    {deflate : Bytes → Bytes} {start : σ} {sink : Sink} {summary : Summary} {final : Session σ}
    (run : (sign engine config input deflate).run { engine := start, output := sink } =
      .ok summary final) :
    ∃ sections records entries shown answer, input.IsArchive sections records entries ∧
      final.rounds.getLast? = some (shown, some answer) ∧
      ∀ output : View, output.Shows final.output.bytes →
        EndRecord.find output = .ok (some (shown.endRecordWith answer,
          output.size - (shown.endRecordWith answer).encode.length)) →
        (shown.endRecordWith answer).isZip64 = false →
        SigningBlock.Readable
          (shown.entries.data.toList ++ Bytes.zeros (BlockRequest.orEmpty answer).padding)
          (BlockRequest.orEmpty answer).block →
        ∃ sections' kept added entries', output.IsArchive sections' (kept ++ added) entries' ∧
          List.Forall₂ (ReadsAs entries entries')
            (records.filter fun record => (record.name, .keep) ∈ final.decisions) kept ∧
          List.Forall₂ (AddedAs deflate entries') final.supplies added := by
  obtain ⟨outcome, described⟩ := sign_eq_ok run
  obtain ⟨shown, body, rounds⟩ := described.rounds
  refine ⟨outcome.sections, outcome.records, outcome.entries, _, outcome.last.2, outcome.archive,
    described.getLast?_rounds rounds, ?_⟩
  intro output shows search small readable
  rw [outcome.endRecordWith_last body] at search small
  rw [body] at readable
  obtain ⟨sections', entries', archive, entriesShow⟩ :=
    outcome.exists_isArchive described shows search small readable
  refine ⟨sections', outcome.keptRecords, outcome.additions.map Addition.record, entries', archive,
    ?_, ?_⟩
  · rw [described.filter_records, Outcome.keptRecords]
    rw [List.forall₂_map_left_iff, List.forall₂_map_right_iff, List.forall₂_same]
    intro piece mem
    obtain ⟨listed, isKept⟩ := List.mem_filter.1 mem
    exact outcome.readsAs entriesShow (outcome.perm.mem_iff.1 listed) isKept
  · rw [described.supplies, List.forall₂_map_left_iff, List.forall₂_map_right_iff,
      List.forall₂_same]
    intro addition mem
    exact outcome.addedAs entriesShow mem

/-- The output of the sample is one that can be read back. -/
theorem sample_reads_back :
    ∃ summary final, Sample.run Sample.script = .ok summary final ∧
      ∃ sections records entries, Sample.input.IsArchive sections records entries ∧
        ∃ sections' kept added entries',
          (View.ofBytes final.output.bytes).IsArchive sections' (kept ++ added) entries' ∧
          List.Forall₂ (ReadsAs entries entries')
            (records.filter fun record => (record.name, .keep) ∈ final.decisions) kept ∧
          List.Forall₂ (AddedAs Deflate.deflate entries') final.supplies added := by
  have succeeds : Sample.succeeds Sample.script (fun final =>
      ∀ round ∈ final.rounds.getLast?, ∀ answer ∈ round.2,
        (round.1.endRecordWith answer).comment = [] ∧
        (round.1.endRecordWith answer).isConsistent = true ∧
        (round.1.endRecordWith answer).isZip64 = false ∧
        SigningBlock.Readable
          (round.1.entries.data.toList ++ Bytes.zeros (BlockRequest.orEmpty answer).padding)
          (BlockRequest.orEmpty answer).block) = true := by decide +kernel
  obtain ⟨summary, final, result, answered⟩ := Sample.exists_of_succeeds succeeds
  obtain ⟨sections, records, entries, shown, answer, archive, last, reads⟩ :=
    signed_archive_reads_back result
  obtain ⟨plain, consistent, small, readable⟩ :=
    of_decide_eq_true answered (shown, some answer) last answer rfl
  obtain ⟨outcome, described⟩ := sign_eq_ok result
  obtain ⟨shown', answer', last', endRecord⟩ := described.endsIn.shown
  cases last.symm.trans last'
  have search := described.endsIn.find_of_no_comment (View.shows_ofBytes _)
    (endRecord ▸ plain) (endRecord ▸ consistent)
  rw [endRecord] at search
  exact ⟨summary, final, result, sections, records, entries, archive,
    reads _ (View.shows_ofBytes _) search small readable⟩

end ApkArchive.Signing

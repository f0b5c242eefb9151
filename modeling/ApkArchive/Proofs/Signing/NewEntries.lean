import ApkArchive.Proofs.Signing.Duplicates
import ApkArchive.Proofs.Signing.Entries
import ApkArchive.Proofs.Signing.Progress
import ApkArchive.Proofs.Zip.Timestamp
import Mathlib.Data.List.Forall2

/-!
# New entries are read back

The two records of a new entry are made from the same values, so a reader accepts the local record
and finds everything that the directory says. Inflating undoes deflating, so the data comes out as
the engine supplied it. New entries are as old as the youngest entry that was kept.
-/

namespace ApkArchive

open LocalRecord (Layout)

/-- A local header and a directory record agree in everything that both of them state. -/
structure LocalHeader.Mirrors (header : LocalHeader) (record : DirectoryRecord) : Prop where
  crc32 : header.crc32 = record.crc32
  compressedSize : header.compressedSize = record.compressedSize
  uncompressedSize : header.uncompressedSize = record.uncompressedSize
  flags : header.flags = record.flags
  methodCode : header.methodCode = record.methodCode
  date : header.date = record.date
  time : header.time = record.time

/-- The two records that are made for a new entry agree. -/
theorem DirectoryRecord.mirrors_of_newDeflated {name : String} {stamp : Timestamp}
    {crc32 compressedSize size offset : UInt32} {record : DirectoryRecord}
    (made : newDeflated name stamp crc32 compressedSize size offset = .ok record)
    (nameSize : UInt16) :
    (LocalHeader.newDeflated stamp crc32 compressedSize size nameSize).Mirrors record ∧
      record.modified = stamp := by
  unfold newDeflated at made
  dsimp only at made
  split at made
  · cases made
    exact ⟨⟨rfl, rfl, rfl, rfl, rfl, rfl, rfl⟩, rfl⟩
  · cases made

namespace LocalRecord

/-- What inflates to the contents of an entry is written as them. -/
theorem emitInflated_of_inflate {found : LocalRecord} {stream data : Bytes}
    (inflates : Deflate.inflate stream = (data.toByteArray, .complete 0))
    (size : data.length = found.uncompressedSize) :
    found.emitInflated stream (.ok ()) = Sink.write data := by
  have size : data.toByteArray.size = found.uncompressedSize := by
    rw [← size, ← ByteArray.size_data, List.data_toByteArray, List.size_toArray]
  have checked : found.emitInflated stream (.ok ()) =
      (Sink.write data.toByteArray.data.toList >>= fun _ => do
        ofExcept (.ok ())
        if data.toByteArray.size ≠ found.uncompressedSize then
          throw (.fault (.inflatedSizeMismatch found.name found.uncompressedSize
            data.toByteArray.size))) := by
    unfold emitInflated
    rw [inflates]
  rw [checked, if_neg (not_not_intro size), List.data_toByteArray]
  exact bind_pure_unit

theorem emitData_of_inflate {found : LocalRecord} {entries : View} {stream data : Bytes}
    (method : found.method = .deflate)
    (fed : entries.feed (found.start + found.dataStart) found.dataSize = Sink.stream stream)
    (inflates : Deflate.inflate stream = (data.toByteArray, .complete 0))
    (size : data.length = found.uncompressedSize) : found.emitData entries = Sink.write data := by
  obtain ⟨sink, run, -, bytes⟩ := @Sink.delivers_stream stream {} fun _ _ _ => rfl
  have run : (Sink.stream stream).run {} = .ok () sink := run
  have bytes : sink.contents.data.toList = stream := bytes
  unfold emitData
  dsimp only
  rw [method, fed]
  dsimp only
  rw [run]
  dsimp only
  rw [bytes, emitInflated_of_inflate inflates size]

end LocalRecord

namespace Signing

open Run (ending)

/-- A new entry in the output: the directory record, the local record to which it points, and what a
reader makes of them. -/
structure NewEntry.ReadsBack (deflate : Bytes → Bytes) (stamp : Timestamp) (view : View)
    (entry : NewEntry) (record : DirectoryRecord) : Prop where
  name : record.nameBytes = LossyUtf8.encode entry.name
  crc32 : record.crc32 = Crc32.checksum entry.data
  compressedSize : record.compressedSize.toNat = (deflate entry.data).length
  uncompressedSize : record.uncompressedSize.toNat = entry.data.length
  method : record.method = .deflate
  modified : record.modified = stamp
  header : ∃ header : LocalHeader, header.Mirrors record ∧ view.Has record.localOffset.toNat
    (header.encode ++ LossyUtf8.encode entry.name ++ deflate entry.data)
  read : ∃ found, LocalRecord.locate view record view.size = .ok found ∧ found.extra = [] ∧
    found.size = 30 + (LossyUtf8.encode entry.name).length + (deflate entry.data).length ∧
      found.emitData view = Sink.write entry.data

variable {config : Config} {input view : View} {deflate : Bytes → Bytes} {rest : Bytes}

theorem Outcome.readsBack (outcome : Outcome config input deflate) {stamp : Timestamp}
    (inflates : ∀ data, Deflate.inflate (deflate data) = (data.toByteArray, .complete 0))
    (shows : view.Shows (outcome.body ++ rest)) {addition : Addition}
    (mem : addition ∈ outcome.additions) (stamped : addition.Stamped deflate stamp) :
    addition.entry.ReadsBack deflate stamp view addition.record := by
  obtain ⟨_, sound⟩ := outcome.appended.exists_sound mem
  have placed := outcome.placed_addition shows mem
  obtain ⟨mirrors, modified⟩ := DirectoryRecord.mirrors_of_newDeflated stamped.made
    (UInt16.ofNat addition.record.nameBytes.length)
  rw [← stamped.isNew.header] at mirrors
  have bytes : addition.layout.bytes = addition.layout.header.encode ++
      LossyUtf8.encode addition.entry.name ++ deflate addition.entry.data := by
    rw [Layout.bytes, stamped.isNew.extra, stamped.isNew.descriptor, sound.name, sound.data,
      List.nil_append, List.append_nil, List.append_assoc]
  have length : addition.record.compressedSize.toNat =
      (deflate addition.entry.data).length := by
    have size := addition.layout.dataSize
    rw [LocalRecord.dataSizeOf, sound.method, sound.data] at size
    exact size.symm
  exact {
    name := sound.name
    crc32 := sound.crc32
    compressedSize := length
    uncompressedSize := sound.size
    method := sound.method
    modified
    header := ⟨addition.layout.header, mirrors, bytes ▸ placed.has⟩
    read := by
      refine ⟨_, placed.located, stamped.isNew.extra, ?_, ?_⟩
      · show addition.layout.bytes.length = _
        rw [bytes, List.length_append, List.length_append, LocalHeader.length_encode]
        rfl
      · exact LocalRecord.emitData_of_inflate sound.method placed.feed
          (sound.data ▸ inflates addition.entry.data) sound.size.symm }

/-- The timestamp of new entries is the latest one of the entries that were kept, or the default if
there are none. -/
def StampedAfter (stamp : Timestamp) (kept : List Timestamp) : Prop :=
  kept = [] ∧ stamp = .default ∨ stamp.IsLatestOf kept

theorem stampedAfter_newStamp (kept : List DirectoryRecord) :
    StampedAfter (newStamp kept) (kept.map (·.modified)) := by
  unfold newStamp
  cases latest : Timestamp.latest? (kept.map (·.modified)) with
  | none => exact .inl ⟨Timestamp.latest?_eq_none_iff.1 latest, rfl⟩
  | some stamp => exact .inr (Timestamp.isLatestOf_of_latest? latest)

/-- New entries are read back as they were supplied, with a timestamp that is not earlier than that
of any entry that was kept, and no name occurs twice in the directory. If a name is taken, the run
fails, and nothing was written of the entry; if nothing else went wrong before, it fails for the
name. -/
theorem new_entries_read_back {engine : Engine σ} {start : σ} {sink : Sink}
    {result : EStateM.Result Error (Session σ) Summary}
    (inflates : ∀ data, Deflate.inflate (deflate data) = (data.toByteArray, .complete 0))
    (run : (sign engine config input deflate).run { engine := start, output := sink } = result) :
    (∀ summary final, result = .ok summary final →
      ∃ sections records entries shown answer kept added stamp,
        input.IsArchive sections records entries ∧
        final.rounds.getLast? = some (shown, some answer) ∧
        final.output.bytes = shown.entries.data.toList ++ ((BlockRequest.orEmpty answer).bytes ++
          (Directory.encode (kept ++ added) ++ (shown.endRecordWith answer).encode)) ∧
        (Directory.names (kept ++ added)).Nodup ∧
        StampedAfter stamp ((records.filter fun record =>
          (record.name, .keep) ∈ final.decisions).map (·.modified)) ∧
        ∀ (view : View) (rest : Bytes), view.Shows (shown.entries.data.toList ++ rest) →
          List.Forall₂ (NewEntry.ReadsBack deflate stamp view) final.supplies added) ∧
      ∀ front entry place, Repeats (ending result).calls.toList front entry place →
        ∃ error final stamp, result = .error error final ∧
          final.output.bytes.drop place <+: front.flatMap (NewEntry.localBytes deflate stamp) ∧
          (final.output.bytes.drop place = front.flatMap (NewEntry.localBytes deflate stamp) →
            error = nameTaken entry.name) := by
  constructor
  · rintro summary final rfl
    obtain ⟨outcome, described, stamped, -⟩ := sign_describes run
    obtain ⟨shown, body, rounds⟩ := described.rounds
    refine ⟨outcome.sections, outcome.records, outcome.entries, _, outcome.last.2,
      outcome.keptRecords, outcome.additions.map Addition.record, newStamp outcome.keptRecords,
      outcome.archive, described.getLast?_rounds rounds, ?_, described.distinct, ?_, ?_⟩
    · rw [outcome.endRecordWith_last body, described.output, Outcome.bytes, ← body]
      rfl
    · have same : (outcome.records.filter fun record =>
          (record.name, .keep) ∈ final.decisions).map (·.modified) =
            outcome.keptRecords.map (·.modified) := by
        rw [described.filter_records, Outcome.keptRecords, List.map_map, List.map_map]
        rfl
      rw [same]
      exact stampedAfter_newStamp outcome.keptRecords
    · intro view rest shows
      rw [body] at shows
      rw [described.supplies, List.forall₂_map_left_iff, List.forall₂_map_right_iff,
        List.forall₂_same]
      intro addition mem
      exact outcome.readsBack inflates shows mem (stamped addition mem)
  · intro front entry place repeats
    have refuses := ensures_sign_refuses engine config input deflate
    cases result with
    | ok summary final =>
      exact absurd repeats (refuses.ok rfl run front entry place)
    | error error final =>
      obtain ⟨stamp, part, blamed⟩ := refuses.error rfl run front entry place repeats
      exact ⟨error, final, stamp, rfl, part, blamed⟩

theorem Call.eq_of_supply? {call : Call} {entries : List NewEntry}
    (supplied : call.supply? = some entries) : call = .newEntries (some (some entries)) := by
  unfold supply? at supplied
  split at supplied
  · rw [Option.some.inj supplied]
  · cases supplied

/-- The entry that the script adds is read back; an entry with the name of the one that was kept is
refused. -/
theorem sample_entry_reads_back :
    (∃ summary final stamp view record, Sample.run Sample.script = .ok summary final ∧
      final.supplies = [⟨"b", [9, 9]⟩] ∧
      NewEntry.ReadsBack Deflate.deflate stamp view ⟨"b", [9, 9]⟩ record) ∧
    ∃ final, Sample.run { Sample.script with additions := some [⟨"a", []⟩] } =
      .error (nameTaken "a") final := by
  constructor
  · have adds : Sample.succeeds Sample.script (fun final =>
        final.supplies = [⟨"b", [9, 9]⟩]) = true := by decide +kernel
    obtain ⟨summary, final, result, supplies⟩ := Sample.exists_of_succeeds adds
    have supplies := of_decide_eq_true supplies
    obtain ⟨_, _, _, shown, _, _, added, stamp, -, -, -, -, -, reads⟩ :=
      (new_entries_read_back Deflate.inflate_deflate result).1 summary final rfl
    have all := reads (View.ofBytes shown.entries.data.toList) []
      (by rw [List.append_nil]; exact View.shows_ofBytes _)
    rw [supplies] at all
    cases all with
    | cons first _ => exact ⟨summary, final, stamp, _, _, result, supplies, first⟩
  · let script : Script := { Sample.script with additions := some [⟨"a", []⟩] }
    have repeats : ((ending (Sample.run script)).calls.toList.any (fun call =>
          call.1.supply? = some [⟨"a", []⟩]) &&
        (ending (Sample.run script)).decisions.contains ("a", .keep)) = true := by
      decide +kernel
    rw [Bool.and_eq_true, List.any_eq_true, List.contains_iff_mem] at repeats
    obtain ⟨⟨⟨call, place⟩, mem, supplied⟩, kept⟩ := repeats
    cases Call.eq_of_supply? (of_decide_eq_true supplied)
    obtain ⟨error, final, stamp, result, part, blamed⟩ :=
      (new_entries_read_back Deflate.inflate_deflate (rfl : Sample.run script = _)).2 []
        ⟨"a", []⟩ place ⟨⟨[], mem⟩, .inl kept⟩
    rw [blamed (List.prefix_nil.1 part)] at result
    exact ⟨final, result⟩

end Signing
end ApkArchive

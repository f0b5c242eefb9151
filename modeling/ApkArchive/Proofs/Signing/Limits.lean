import ApkArchive.Proofs.Signing.Appending
import ApkArchive.Proofs.Signing.PassThrough
import ApkArchive.Proofs.Signing.Stages
import ApkArchive.Proofs.Storage.Ensures
import Mathlib.Data.List.Nodup

/-!
# How large an output may be

The fields of an end record are words, and the largest value of each one but the size refers to a
ZIP64 record, which an archive of this kind does not have. A run fails if the records or their place
do not fit into the fields. It does not fail at the largest values, which do fit: an output with
65535 entries, or with a directory at offset 4294967295, is written, and no reader of it finds its
sections.
-/

namespace ApkArchive

theorem EndRecord.isZip64_iff {record : EndRecord} :
    record.isZip64 = true ↔ record.diskEntries = zip64Count ∨ record.totalEntries = zip64Count ∨
      record.directorySize = zip64Word ∨ record.directoryOffset = zip64Word := by
  simp only [isZip64, Bool.or_eq_true, decide_eq_true_eq, or_assoc]

/-- A directory that can be read is far smaller than the largest word, so only the number of records
and their place can refer to a ZIP64 record. -/
theorem EndRecord.isZip64_iff_of_small {record : EndRecord} {count : Nat}
    (diskEntries : record.diskEntries.toNat = count) (entries : record.totalEntries.toNat = count)
    (small : record.directorySize.toNat ≤ View.maxBufferSize) :
    record.isZip64 = true ↔
      count = zip64Count.toNat ∨ record.directoryOffset = zip64Word := by
  have counted (word : UInt16) (same : word.toNat = count) :
      word = zip64Count ↔ count = zip64Count.toNat := by
    rw [← same, UInt16.toNat_inj]
  have sized : record.directorySize ≠ zip64Word := by
    intro large
    rw [large] at small
    exact absurd small (by decide)
  rw [isZip64_iff]
  constructor
  · rintro (disk | total | size | offset)
    · exact .inl ((counted _ diskEntries).1 disk)
    · exact .inl ((counted _ entries).1 total)
    · exact absurd size sized
    · exact .inr offset
  · rintro (many | far)
    · exact .inl ((counted _ diskEntries).2 many)
    · exact .inr (.inr (.inr far))

namespace Signing

open Run

/-! ### What is refused -/

/-- An end record has room for the records and for their place. -/
structure Fits (records : List DirectoryRecord) (offset : Nat) : Prop where
  size : Directory.size records ≤ View.maxBufferSize
  count : records.length < 65536
  offset : offset < UInt32.size

section Refused

variable {engine : Engine σ} {config : Config}

/-- What does not fit is a fault of the archive; the engine is not asked for a signing block, and
nothing is written. -/
theorem writeDirectory_of_not_fits {inputEnd : EndRecord} {records : List DirectoryRecord}
    {offset : Nat} (s : Session σ) (large : ¬ Fits records offset) :
    ∃ fault, writeDirectory engine config inputEnd records offset s = .error (.fault fault) s := by
  unfold writeDirectory
  dsimp only
  split
  · next size => exact ⟨.outputDirectoryTooLarge (Directory.size records), rfl⟩
  next size =>
  split
  · next count => exact ⟨.tooManyEntries records.length, rfl⟩
  next count =>
  have outside : ¬ offset < UInt32.size := by
    intro inside
    exact large ⟨Nat.le_of_not_lt size, Nat.lt_of_not_le count, inside⟩
  have refused : fieldOffset offset = .error (.fault (.outputTooLarge offset)) := if_neg outside
  refine ⟨.outputTooLarge offset, ?_⟩
  rw [refused]
  rfl

/-- A run that cannot say where its directory would be has failed for that, or because the output
did not take the block. -/
def Overflows (place : Nat) (error : Error) : Prop :=
  error = .fault (.outputTooLarge place) ∨ ∃ fault, error = .storage fault

theorem ensures_emit_write (chunk : Bytes) (place : Nat) :
    Ensures (fun _ => True) (emit (Sink.write chunk) : Run σ Unit) (fun _ _ => True)
      fun error _ => Overflows place error := by
  rintro ⟨state, output, calls, notices⟩ -
  unfold emit EStateM.run
  dsimp only
  cases run : Sink.write chunk output with
  | ok _ _ => trivial
  | error error _ => exact .inr ((Sink.ensures_write output.bytes chunk).error rfl run).1

/-- A block that moves the directory too far is written, but nothing after it. -/
theorem writeBlock_of_not_fits {endRecord : EndRecord} {offset : Nat} {request : BlockRequest}
    (s : Session σ) (large : UInt32.size ≤ offset + request.size) :
    ∃ error s', writeBlock engine endRecord offset request s = .error error s' ∧
      Overflows (offset + request.size) error := by
  have refused : fieldOffset (offset + request.size) =
      .error (.fault (.outputTooLarge (offset + request.size))) := if_neg (Nat.not_lt.2 large)
  have writes : Ensures (fun _ => True) (writeBlock engine endRecord offset request : Run σ _)
      (fun _ _ => False) fun error _ => Overflows (offset + request.size) error := by
    unfold writeBlock
    refine (ensures_emit_write _ _).bind fun _ => (ensures_emit_write _ _).bind fun _ => ?_
    refine Ensures.bind (Q := fun _ _ => True) (fun _ _ => trivial) fun _ => ?_
    rw [refused]
    exact Ensures.throw fun _ _ => .inl rfl
  cases run : writeBlock engine endRecord offset request s with
  | ok _ _ => exact (writes.ok trivial run).elim
  | error error s' => exact ⟨error, s', rfl, writes.error trivial run⟩

theorem completeOutput_of_not_fits {directory : Bytes} {size offset : Nat} {endRecord : EndRecord}
    {request : BlockRequest} (s : Session σ) (large : UInt32.size ≤ offset + request.size) :
    ∃ error s', completeOutput engine offset directory size endRecord (some request) s =
      .error error s' ∧ Overflows (offset + request.size) error := by
  obtain ⟨error, s', run, overflows⟩ := writeBlock_of_not_fits s large
  exact ⟨error, s', run_bind_of_error run, overflows⟩

end Refused

/-! ### What a run may write -/

/-- A successful run has written an end record that refers to a ZIP64 record exactly if the number
of records or the place of the directory is the largest one. A run with more than an end record can
say fails instead: with a fault, and before it asks for a signing block, if the records or their
place do not fit; and if a block moves them too far, with a fault after the block is written. -/
theorem written_is_zip64_iff (engine : Engine σ) (config : Config) (input : View)
    (deflate : Bytes → Bytes) (start : σ) (sink : Sink) :
    let result := (sign engine config input deflate).run { engine := start, output := sink }
    (∀ summary final, result = .ok summary final →
      ∃ directory endRecord, final.EndsIn directory endRecord ∧
        EndRecord.parse endRecord.encode = .ok endRecord ∧
        directory.length ≤ EndRecord.zip64Count.toNat ∧
        endRecord.directorySize.toNat ≤ View.maxBufferSize ∧
        (endRecord.isZip64 = true ↔ directory.length = EndRecord.zip64Count.toNat ∨
          endRecord.directoryOffset = EndRecord.zip64Word)) ∧
    ∀ written mid, (writeEntries engine config input deflate).run
        { engine := start, output := sink } = .ok written mid →
      (¬ Fits written.records written.offset → ∃ fault, result = .error (.fault fault) mid) ∧
      ∀ endRecord request after, agree engine config written.inputEnd written.records
          written.offset mid = .ok (endRecord, some request) after →
        UInt32.size ≤ written.offset + request.size →
        ∃ error final, result = .error error final ∧
          Overflows (written.offset + request.size) error := by
  intro result
  refine ⟨fun summary final run => ?_, fun written mid entries => ?_⟩
  · obtain ⟨outcome, described⟩ := sign_eq_ok run
    obtain ⟨-, size, diskCount, count⟩ := described.closed.last_fields
    have small := described.closed.sizeFits
    rw [Directory.size_eq, ← size] at small
    have few : outcome.directory.length ≤ EndRecord.zip64Count.toNat :=
      Nat.le_of_lt_succ described.closed.countFits
    refine ⟨outcome.directory, outcome.endRecord, described.endsIn, EndRecord.parse_eq_ok_iff.2 rfl,
      few, small, ?_⟩
    exact EndRecord.isZip64_iff_of_small diskCount count small
  · have signs : result = conclude engine config written.inputEnd written.sweep written.added
        written.offset mid := by
      show sign engine config input deflate _ = _
      rw [sign_eq]
      exact run_bind_of_ok entries
    rw [signs]
    refine ⟨fun large => ?_, fun endRecord request after agreed large => ?_⟩
    · obtain ⟨fault, refused⟩ : ∃ fault, writeDirectory engine config written.inputEnd
          written.records written.offset mid = .error (.fault fault) mid :=
        writeDirectory_of_not_fits mid large
      exact ⟨fault, run_bind_of_error refused⟩
    · obtain ⟨error, final, refused, overflows⟩ : ∃ error final, completeOutput engine
          written.offset (Directory.encode written.records) (Directory.size written.records)
          endRecord (some request) after = .error error final ∧ Overflows _ error :=
        completeOutput_of_not_fits after large
      have closes : writeDirectory engine config written.inputEnd written.records written.offset
          mid = .error error final := by
        rw [writeDirectory_eq, run_bind_of_ok agreed]
        exact refused
      exact ⟨error, final, run_bind_of_error closes, overflows⟩

/-- The output with two entries is far from both values. -/
theorem sample_is_not_zip64 :
    ∃ summary final directory endRecord, Sample.run Sample.script = .ok summary final ∧
      final.EndsIn directory endRecord ∧ endRecord.isZip64 = false ∧
      directory.length < EndRecord.zip64Count.toNat ∧
      endRecord.directoryOffset ≠ EndRecord.zip64Word := by
  have plain : Sample.succeeds Sample.script (writes fun endRecord => !endRecord.isZip64) = true :=
    by decide +kernel
  obtain ⟨summary, final, result, holds⟩ := Sample.exists_of_succeeds plain
  obtain ⟨succeeded, -⟩ :=
    written_is_zip64_iff Sample.script.engine {} Sample.input Deflate.deflate {} {}
  obtain ⟨directory, endRecord, ends, -, few, -, reaches⟩ := succeeded summary final result
  have plain : endRecord.isZip64 = false := Bool.not_eq_true' _ ▸ ends.of_writes holds
  have neither := not_or.1 fun large => Bool.false_ne_true (plain.symm.trans (reaches.2 large))
  exact ⟨summary, final, directory, endRecord, result, ends, plain,
    Nat.lt_of_le_of_ne few neither.1, neither.2⟩

/-! ### The largest values -/

/-- An event can be written down if the script does not fail. -/
theorem Script.always_log {script : Script} (sound : script.failure = none) (event : Event) :
    Ask.Always (script.log event) () := by
  intro state
  refine ⟨{ state with events := state.events.push event }, ?_⟩
  unfold Script.log
  rw [if_neg (by rw [sound]; exact Option.some_ne_none _ ∘ Eq.symm)]
  rfl

/-- A script that adds entries and asks for a signing block. -/
theorem Script.steady (additions : Option (List NewEntry)) (request : Option BlockRequest) :
    (engine { additions, blocks := [request] }).Steady (fun _ => True) additions request where
  inputBlock _ := always_log rfl _
  inputEntry _ _ := ⟨none, (always_log rfl _).bind (Ask.always_pure _)⟩
  outputEntry _ := (always_log rfl _).bind (Ask.always_pure _)
  newEntries := (always_log rfl _).bind (Ask.always_pure _)
  newEntriesWritten := always_log rfl _
  signingBlock _ := by
    refine (always_log rfl _).bind fun before => ?_
    have only : Script.block { additions, blocks := [request] } before.blocksAsked = request := by
      rw [Script.block, List.length_singleton, Nat.sub_self, Nat.min_zero]
      rfl
    exact ⟨{ before with blocksAsked := before.blocksAsked + 1 },
      congrArg (EStateM.Result.ok · _) only⟩
  blockWritten := always_log rfl _
  finished := always_log rfl _

namespace Sample

/-- The archive without entries. -/
def empty : View := View.ofBytes (emptyEnd 0).encode

theorem exists_isArchive_empty :
    ∃ sections entries, empty.IsArchive sections [] entries ∧ entries.Shows [] ∧
      sections.endRecord = emptyEnd 0 := by
  have shows : empty.Shows ([] ++ ([] ++ (Directory.encode [] ++ (emptyEnd 0).encode))) :=
    View.shows_ofBytes (emptyEnd 0).encode
  have search : EndRecord.find empty = .ok (some (emptyEnd 0, 0)) :=
    EndRecord.find_of_no_comment shows rfl rfl
  obtain ⟨sections, entries, archive, entriesShow⟩ := exists_isArchive shows (by decide) search rfl
    rfl rfl rfl (Nat.zero_le _) List.nodup_nil
  obtain ⟨found, -⟩ := Sections.locate_eq_ok_iff.1 archive.located
  rw [search, Except.ok.injEq, Option.some.injEq, Prod.mk.injEq] at found
  exact ⟨sections, entries, archive, entriesShow, found.1.symm⟩

/-- What is added to the archive without entries is written if there is room for it, and a reader
finds the end record. -/
theorem exists_sign_empty (todo : List NewEntry) (request : Option BlockRequest)
    (fits : ∀ entry ∈ todo, entry.Fits Deflate.deflate) (distinct : (todo.map NewEntry.name).Nodup)
    {size offset : Nat} (countFits : todo.length < 65536)
    (size_eq : size = NewEntry.total NewEntry.recordSize todo)
    (offset_eq : offset = NewEntry.total (NewEntry.localSize Deflate.deflate) todo +
      (BlockRequest.orEmpty request).size)
    (sizeFits : size ≤ View.maxBufferSize) (offsetFits : offset < UInt32.size) :
    ∃ summary final front endRecord,
      (sign (Script.engine { additions := some todo, blocks := [request] }) {} empty).run
        { engine := {} } = .ok summary final ∧
      final.output.bytes = front ++ endRecord.encode ∧
      EndRecord.find (View.ofBytes final.output.bytes) = .ok (some (endRecord, front.length)) ∧
      endRecord.diskEntries = UInt16.ofNat todo.length ∧
      endRecord.directoryOffset = UInt32.ofNat offset := by
  obtain ⟨sections, entries, archive, shows, same⟩ := exists_isArchive_empty
  have count : todo.length = ([] : List DirectoryRecord).length + todo.length :=
    (Nat.zero_add _).symm
  obtain ⟨summary, front, completes⟩ := completes_sign_of_additions {}
    (Script.steady (some todo) request) archive shows.holds
    ⟨fun _ => nofun, List.Pairwise.nil⟩ (fun _ => nofun) fits distinct
    count (size_eq.trans (Nat.zero_add _).symm)
    (by rw [shows.size, List.length_nil, Nat.zero_add]; exact offset_eq)
    countFits sizeFits offsetFits rfl
  obtain ⟨final, run, -, wrote⟩ := @completes { engine := {} } (fun _ _ _ => rfl) rfl
  rw [List.nil_append, same] at wrote
  have shows := View.shows_ofBytes final.output.bytes
  nth_rewrite 2 [wrote] at shows
  exact ⟨summary, final, front, _, run, wrote, EndRecord.find_of_no_comment shows rfl rfl, rfl, rfl⟩

/-- An entry without contents; its name is a character beyond the first plane. -/
def blank (number : Nat) : NewEntry where
  name := String.singleton (Char.ofNat (0x10000 + number))
  data := []

/-- The name has at most four bytes, and the compressed form of no contents has two. -/
theorem blank_fits (number : Nat) :
    (blank number).Fits Deflate.deflate ∧ (blank number).recordSize ≤ 50 ∧
      (blank number).localSize Deflate.deflate ≤ 36 := by
  have short : (LossyUtf8.encode (blank number).name).length ≤ 4 := by
    rw [blank, LossyUtf8.encode, String.singleton_eq_ofList, String.toByteArray_ofList]
    simpa [List.utf8Encode] using Char.utf8Size_le_four _
  have packed : (Deflate.deflate (blank number).data).length = 2 := by
    show (Deflate.deflate []).length = 2
    decide +kernel
  refine ⟨⟨by omega, Nat.lt_of_le_of_lt (Nat.zero_le 0) (by decide), ?_⟩, ?_, ?_⟩
  · rw [packed]
    decide
  · rw [NewEntry.recordSize, DirectoryRecord.fixedSize]
    omega
  · rw [NewEntry.localSize, packed, LocalHeader.fixedSize]
    omega

theorem blank_name_inj {number number' : Nat} (small : number < 0x100000)
    (small' : number' < 0x100000) (same : (blank number).name = (blank number').name) :
    number = number' := by
  have code {n : Nat} (small : n < 0x100000) :
      (Char.ofNat (0x10000 + n)).toNat = 0x10000 + n := by
    have valid : (0x10000 + n).isValidChar := .inr ⟨by omega, by omega⟩
    unfold Char.ofNat
    rw [dif_pos valid]
    rfl
  have same := congrArg Char.toNat (List.singleton_injective (String.ofList_injective same))
  rw [code small, code small'] at same
  omega

/-- So many entries without contents. -/
def crowd (count : Nat) : List NewEntry := (List.range count).map blank

theorem nodup_crowd {count : Nat} (few : count ≤ 0x100000) :
    ((crowd count).map NewEntry.name).Nodup := by
  rw [crowd, List.map_map]
  refine List.nodup_range.map_on fun number mem number' mem' => ?_
  rw [List.mem_range] at mem mem'
  exact blank_name_inj (Nat.lt_of_lt_of_le mem few) (Nat.lt_of_lt_of_le mem' few)

theorem crowd_fits {count : Nat} {entry : NewEntry} (mem : entry ∈ crowd count) :
    entry.Fits Deflate.deflate ∧ entry.recordSize ≤ 50 ∧ entry.localSize Deflate.deflate ≤ 36 := by
  obtain ⟨number, -, rfl⟩ := List.mem_map.1 mem
  exact blank_fits number

end Sample

/-- With the largest count of an end record the run succeeds, and the record that a reader finds
refers to a ZIP64 record. -/
theorem largest_count_is_written :
    ∃ summary final front endRecord,
      (sign (Script.engine { additions := some (Sample.crowd 65535), blocks := [none] }) {}
        Sample.empty).run { engine := {} } = .ok summary final ∧
      final.output.bytes = front ++ endRecord.encode ∧
      EndRecord.find (View.ofBytes final.output.bytes) = .ok (some (endRecord, front.length)) ∧
      endRecord.isZip64 = true := by
  have length : (Sample.crowd 65535).length = 65535 := by
    rw [Sample.crowd, List.length_map, List.length_range]
  have fits (entry : NewEntry) (mem : entry ∈ Sample.crowd 65535) := Sample.crowd_fits mem
  have records := NewEntry.total_le fun entry mem => (fits entry mem).2.1
  have entries := NewEntry.total_le fun entry mem => (fits entry mem).2.2
  rw [length] at records entries
  have noBlock : (BlockRequest.orEmpty none).size = 0 := rfl
  obtain ⟨summary, final, front, endRecord, run, wrote, found, count, -⟩ :=
    Sample.exists_sign_empty (Sample.crowd 65535) none
      (fun entry mem => (fits entry mem).1) (Sample.nodup_crowd (by decide))
      (by rw [length]; decide) rfl rfl (Nat.le_trans records (by decide))
      (by rw [noBlock, UInt32.size]; omega)
  refine ⟨summary, final, front, endRecord, run, wrote, found, ?_⟩
  rw [EndRecord.isZip64_iff, count, length]
  exact .inl rfl

/-- The same happens with the largest offset: here as many zero bytes precede the directory. -/
theorem largest_offset_is_written :
    ∃ summary final front endRecord,
      (sign (Script.engine {
        additions := some []
        blocks := [some { padding := 0xFFFFFFFF, block := [] }] }) {} Sample.empty).run
          { engine := {} } = .ok summary final ∧
      final.output.bytes = front ++ endRecord.encode ∧
      EndRecord.find (View.ofBytes final.output.bytes) = .ok (some (endRecord, front.length)) ∧
      endRecord.isZip64 = true := by
  obtain ⟨summary, final, front, endRecord, run, wrote, found, -, offset⟩ :=
    Sample.exists_sign_empty [] (some { padding := 0xFFFFFFFF, block := [] }) (fun _ => nofun)
      List.nodup_nil (by decide) rfl rfl (Nat.zero_le _) (by decide)
  refine ⟨summary, final, front, endRecord, run, wrote, found, ?_⟩
  rw [EndRecord.isZip64_iff, offset]
  exact .inr (.inr (.inr rfl))

end Signing
end ApkArchive

import ApkArchive.Signing.Sign

/-!
# The stages of a run

A run writes the entries and then the directory. Before it writes the directory it agrees with the
engine on a signing block, so it can also be told as four stages:

    sign = writeEntries, then agree, then completeOutput, then the summary
-/

namespace ApkArchive.Signing

open Run

variable {engine : Engine σ} {config : Config}

/-! ### The directory -/

/-- What a run does to agree with the engine on a signing block: the end record is made, and its
comment is padded until the size of the output is right. -/
def agree (engine : Engine σ) (config : Config) (inputEnd : EndRecord)
    (records : List DirectoryRecord) (offset : Nat) : Run σ (EndRecord × Option BlockRequest) := do
  let size := Directory.size records
  if View.maxBufferSize < size then throw (.fault (.outputDirectoryTooLarge size))
  if 65536 ≤ records.length then throw (.fault (.tooManyEntries records.length))
  let newOffset ← ofExcept (fieldOffset offset)
  let endRecord :=
    inputEnd.withDirectory (UInt16.ofNat records.length) (UInt32.ofNat size) newOffset
  let entries := (← get).output.contents
  negotiate engine (max 1 (config.sizeMultiple.getD 1)) entries offset (Directory.encode records)
    maxAttempts endRecord

/-- What a run writes when it has agreed with the engine on a signing block. -/
def completeOutput (engine : Engine σ) (offset : Nat) (directory : Bytes) (size : Nat)
    (endRecord : EndRecord) (request : Option BlockRequest) : Run σ Nat := do
  let endRecord ← request.elim (pure endRecord) (writeBlock engine endRecord offset)
  emit ((View.ofBytes directory).feed 0 size)
  emit (Sink.write endRecord.encode)
  return request.elim 0 BlockRequest.size

theorem writeDirectory_eq (inputEnd : EndRecord) (records : List DirectoryRecord) (offset : Nat) :
    writeDirectory engine config inputEnd records offset = (do
      let agreed ← agree engine config inputEnd records offset
      completeOutput engine offset (Directory.encode records) (Directory.size records) agreed.1
        agreed.2) := by
  unfold writeDirectory agree
  dsimp only
  split
  · rfl
  split
  · rfl
  simp only [bind_assoc]
  refine bind_congr fun word => bind_congr fun s => bind_congr ?_
  rintro ⟨endRecord, request⟩
  cases request <;> rfl

/-! ### The whole run -/

/-- What a run knows when all entries are written: the end record of the input, what became of the
entries of the input, the records of the new entries, and the count of the output. -/
structure EntriesWritten where
  inputEnd : EndRecord
  sweep : Sweep
  added : List DirectoryRecord
  offset : Nat

/-- The directory that is to be written. -/
def EntriesWritten.records (written : EntriesWritten) : List DirectoryRecord :=
  written.sweep.records ++ written.added

/-- What a run does before it comes to the directory. -/
def writeEntries (engine : Engine σ) (config : Config) (input : View) (deflate : Bytes → Bytes) :
    Run σ EntriesWritten := do
  if (← position) ≠ 0 then throw (.storage .outputNotEmpty)
  let sections ← ofExcept (Sections.locate input)
  note? (sections.flaw?.map .blockIgnored)
  let directory ← ofExcept (sections.readDirectory input)
  let records ← ofExcept (Directory.parse sections.recordCount sections.directoryOffset directory)
  let block := sections.signingBlock?.map (·.contents)
  note (.inputLocated records.length sections.directoryOffset block.isSome)
  ask (engine.inputBlock block) fun _ => .inputBlock block
  let entries ← ofExcept (input.slice 0 sections.entriesSize)
  let sweep ← sweepEntries engine config entries records
  let (added, offset) ← addEntries engine deflate sweep.records sweep.offset
  return { inputEnd := sections.endRecord, sweep, added, offset }

/-- What a run does after its last entry. -/
def conclude (engine : Engine σ) (config : Config) (inputEnd : EndRecord) (sweep : Sweep)
    (added : List DirectoryRecord) (offset : Nat) : Run σ Summary := do
  let blockSize ← writeDirectory engine config inputEnd (sweep.records ++ added) offset
  let summary : Summary := {
    copied := sweep.records.length
    realigned := sweep.fates.countP Fate.isRealigned
    skipped := sweep.fates.count .skipped
    replaced := sweep.fates.count .replaced
    added := added.length
    blockSize
    outputSize := ← position }
  ask engine.finished fun _ => .finished
  note (.finished summary)
  return summary

theorem sign_eq (input : View) (deflate : Bytes → Bytes) :
    sign engine config input deflate = (do
      let written ← writeEntries engine config input deflate
      conclude engine config written.inputEnd written.sweep written.added written.offset) := by
  unfold sign writeEntries
  simp only [bind_assoc]
  refine bind_congr fun position => ?_
  split
  · rfl
  simp only [bind_assoc, pure_bind]
  rfl

end ApkArchive.Signing

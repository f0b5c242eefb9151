import ApkArchive.Alignment.Policy
import ApkArchive.Deflate.FixedBlock
import ApkArchive.Signing.Session
import ApkArchive.Zip.Directory
import ApkArchive.Zip.LocalRecord.Emit
import ApkArchive.Zip.Sections

/-!
# Signing runs

`sign` writes a new archive from an input archive and the answers of an engine. It sweeps over
the entries in file order and copies what lies between them, copies each entry that is kept and
aligns its data, appends the entries that the engine adds, and writes directory and end record,
with the signing block before them. The signing block of the input is never copied.

The directory of the output has the kept records in the order of the input directory, then the new
ones. Everything that is not an entry is copied once, in its place.
-/

namespace ApkArchive.Signing

/-- The options of a run. -/
structure Config where
  alignment : Alignment.Policy := {}
  /-- The comment of the archive is padded so that the size of the output is a multiple of this;
  zero and one make no difference. -/
  sizeMultiple : Option Nat := none
  deriving DecidableEq, Repr

/-- How often the engine is asked for a signing block before a run gives up. -/
def maxAttempts : Nat := 8

/-- What became of an input entry. -/
inductive Fate
  /-- It was copied; the record is its record in the new directory, and its number is the place of
  the record in the directory of the input. -/
  | kept (record : DirectoryRecord) (number : Nat) (realigned : Bool)
  | replaced
  | skipped
  deriving DecidableEq, Repr

namespace Fate

/-- The new record of an entry that was kept, and its number. -/
def kept? : Fate → Option (DirectoryRecord × Nat)
  | kept record number _ => some (record, number)
  | _ => none

def isRealigned : Fate → Bool
  | kept _ _ realigned => realigned
  | _ => false

end Fate

/-- How far a sweep has come. -/
structure Sweep where
  /-- Up to here every byte of the input belongs to an entry or has been copied. -/
  covered : Nat := 0
  /-- How many bytes the output has by the count of what was written. -/
  offset : Nat := 0
  /-- What became of the entries, last one first. -/
  fates : List Fate := []

namespace Sweep

/-- The records of the entries that were kept, in the order of the input directory. -/
def records (sweep : Sweep) : List DirectoryRecord :=
  ((sweep.fates.reverse.filterMap Fate.kept?).mergeSort fun a b => a.2 ≤ b.2).map (·.1)

end Sweep

open Run

/-- An offset of the output as it is written into a record. -/
def fieldOffset (offset : Nat) : Except Error UInt32 :=
  if offset < UInt32.size then .ok (UInt32.ofNat offset)
  else .error (.fault (.outputTooLarge offset))

/-- Shows the data of an entry to the engine: writes it to the sink that the engine asked for, if it
asked, and tells the engine. -/
def show? (engine : Engine σ) (stage : Stage) (name : String) (data : Emit Unit) :
    Option Sink → Run σ Unit
  | none => pure ()
  | some sink => do
    match data.run sink with
    | .error error _ => throw error
    | .ok _ sink =>
      let data := sink.contents.data.toList
      ask (engine.inspected stage name data) fun _ => .inspected stage name data

/-- Shows the data of an input entry to the engine, if it asked for that. -/
def showData? (engine : Engine σ) (stage : Stage) (entries : View) (found : LocalRecord)
    (sink : Option Sink) : Run σ Unit := do
  if sink.isSome then note (.dataShown found.name)
  show? engine stage found.name (found.emitData entries) sink

/-- Copies an entry that is kept to the given offset of the output, aligned. Returns what became of
it, and how many bytes were written. -/
def copyEntry (config : Config) (entries : View) (record : DirectoryRecord) (number : Nat)
    (found : LocalRecord) (offset : Nat) : Run σ (Fate × Nat) := do
  let newOffset ← ofExcept (fieldOffset offset)
  let plan := config.alignment.plan found offset
  let written ← match plan with
    | .unchanged => emit (found.copy entries)
    | .realign alignment extra => do
      note (.aligning found.name alignment)
      emit (found.copyWithExtra entries extra)
  note (.copied found.name found.start offset (offset + plan.dataStart found))
  return (.kept (record.withLocalOffset newOffset) number (plan ≠ .unchanged), written)

/-- Asks the engine what becomes of an entry, and does it. Returns what was done, and how many bytes
were written at the given offset of the output. -/
def settleEntry (engine : Engine σ) (config : Config) (entries : View) (record : DirectoryRecord)
    (number : Nat) (found : LocalRecord) (offset : Nat) : Run σ (Fate × Nat) := do
  let name := record.name
  let decision ← ask (engine.inputEntry name) (.inputEntry name)
  note? decision.remark
  showData? engine .input entries found decision.inspect
  match decision.disposition with
  | .replace =>
    note (.leftToEngine name)
    return (.replaced, 0)
  | .skip =>
    note (.skipped name)
    return (.skipped, 0)
  | .keep =>
    let sink ← ask (engine.outputEntry name) (.outputEntry name)
    showData? engine .output entries found sink
    copyEntry config entries record number found offset

/-- Copies what lies before an entry and belongs to no other, then settles the entry. -/
def sweepEntry (engine : Engine σ) (config : Config) (entries : View) (sweep : Sweep)
    (entry : DirectoryRecord × Nat) : Run σ Sweep := do
  let (record, number) := entry
  let found ← ofExcept <|
    (LocalRecord.locate entries record entries.size).mapError (Error.withRecord (number + 1))
  let gap := found.start - sweep.covered
  if 0 < gap then
    note (.gapCopied gap sweep.covered)
    emit (entries.feed sweep.covered gap)
  let offset := sweep.offset + gap
  let (fate, written) ← settleEntry engine config entries record number found offset
  return {
    covered := max sweep.covered found.stop
    offset := offset + written
    fates := fate :: sweep.fates }

/-- Settles all entries of the input and copies everything else. -/
def sweepEntries (engine : Engine σ) (config : Config) (entries : View)
    (records : List DirectoryRecord) : Run σ Sweep := do
  let sweep ← (Directory.inFileOrder records).foldlM (sweepEntry engine config entries) {}
  let gap := entries.size - sweep.covered
  if 0 < gap then
    note (.tailCopied gap sweep.covered)
    emit (entries.feed sweep.covered gap)
  return { sweep with offset := sweep.offset + gap }

/-- The entries added so far: their records, last one first, the names of all entries of the output,
and how many bytes the output has by the count of what was written. -/
structure Additions where
  records : List DirectoryRecord := []
  names : Std.TreeSet String
  offset : Nat

/-- Writes an entry that the engine adds. -/
def addEntry (engine : Engine σ) (deflate : Bytes → Bytes) (stamp : Timestamp)
    (additions : Additions) (entry : NewEntry) : Run σ Additions := do
  let name := entry.name
  if additions.names.contains name then
    throw (.engine ⟨s!"Signing engine added entry {name} which is already in the output", []⟩)
  let sink ← ask (engine.outputEntry name) (.outputEntry name)
  show? engine .output name (Sink.write entry.data) sink
  let offset ← ofExcept (fieldOffset additions.offset)
  if UInt32.size ≤ entry.data.length then throw (.fault (.entryTooLarge name))
  let size := UInt32.ofNat entry.data.length
  let compressed := deflate entry.data
  let crc := Crc32.checksum entry.data
  let written ← emit (LocalRecord.emitNew name stamp compressed crc size)
  let record ← ofExcept <| DirectoryRecord.newDeflated name stamp crc
    (UInt32.ofNat compressed.length) size offset
  note (.added name offset.toNat)
  return {
    records := record :: additions.records
    names := additions.names.insert name
    offset := additions.offset + written }

/-- Writes the entries that the engine adds to the given offset of the output. Returns their
records, and how many bytes the output has then. `kept` are the records of the entries that are in
the output already; the new entries get the latest of their timestamps. -/
def addEntries (engine : Engine σ) (deflate : Bytes → Bytes) (kept : List DirectoryRecord)
    (offset : Nat) : Run σ (List DirectoryRecord × Nat) := do
  match ← ask engine.newEntries .newEntries with
  | none => return ([], offset)
  | some entries =>
    let stamp := (Timestamp.latest? (kept.map (·.modified))).getD .default
    let additions ← entries.foldlM (addEntry engine deflate stamp)
      { names := .ofList (kept.map (·.name)), offset }
    ask engine.newEntriesWritten fun _ => .newEntriesWritten
    return (additions.records.reverse, additions.offset)

/-- Asks the engine for a signing block until the size of the output is a multiple of `multiple`,
at most `attempts` times; each time but the last, the comment is padded by as much as was missing.
The directory is to begin at `offset`, before the block moves it. -/
def negotiate (engine : Engine σ) (multiple : Nat) (entries : ByteArray) (offset : Nat)
    (directory : Bytes) : (attempts : Nat) → EndRecord → Run σ (EndRecord × Option BlockRequest)
  | 0, _ => throw (.convergence maxAttempts)
  | attempts + 1, endRecord => do
    let shown : Unsigned := { entries, directory, endRecord }
    let request ← ask (engine.signingBlock shown) (.signingBlock shown)
    let blockSize := request.elim 0 BlockRequest.size
    let total := offset + blockSize + directory.length + endRecord.encode.length
    let excess := total % multiple
    if excess = 0 then return (endRecord, request)
    if attempts = 0 then throw (.convergence maxAttempts)
    let padding := multiple - excess
    note (.commentPadded padding multiple)
    let endRecord ← ofExcept ((endRecord.padComment padding).mapError .fault)
    negotiate engine multiple entries offset directory attempts endRecord

/-- Writes the requested signing block at the offset where the directory would begin, and returns
the end record for the directory after it. -/
def writeBlock (engine : Engine σ) (endRecord : EndRecord) (offset : Nat)
    (request : BlockRequest) : Run σ EndRecord := do
  emit (Sink.write (Bytes.zeros request.padding))
  emit (Sink.write request.block)
  note (.blockInserted request.block.length request.padding)
  let moved ← ofExcept (fieldOffset (offset + request.size))
  ask engine.blockWritten fun _ => .blockWritten
  return endRecord.withDirectoryOffset moved

/-- Writes signing block, directory and end record to the given offset of the output. Returns the
size of the block, padding included. -/
def writeDirectory (engine : Engine σ) (config : Config) (inputEnd : EndRecord)
    (records : List DirectoryRecord) (offset : Nat) : Run σ Nat := do
  let size := Directory.size records
  if View.maxBufferSize < size then throw (.fault (.outputDirectoryTooLarge size))
  if 65536 ≤ records.length then throw (.fault (.tooManyEntries records.length))
  let newOffset ← ofExcept (fieldOffset offset)
  let directory := Directory.encode records
  let endRecord :=
    inputEnd.withDirectory (UInt16.ofNat records.length) (UInt32.ofNat size) newOffset
  let multiple := max 1 (config.sizeMultiple.getD 1)
  let entries := (← get).output.contents
  let (endRecord, request) ←
    negotiate engine multiple entries offset directory maxAttempts endRecord
  let endRecord ← match request with
    | none => pure endRecord
    | some request => writeBlock engine endRecord offset request
  emit ((View.ofBytes directory).feed 0 size)
  emit (Sink.write endRecord.encode)
  return request.elim 0 BlockRequest.size

/-- Writes an archive with the entries of `input` and the answers of the engine to the output of the
session, which must be empty. Nothing is written before the end record and the directory of the
input are known to be sound. `deflate` compresses the data of the entries that the engine adds. -/
def sign (engine : Engine σ) (config : Config) (input : View)
    (deflate : Bytes → Bytes := Deflate.deflate) : Run σ Summary := do
  if (← position) ≠ 0 then throw (.storage .outputNotEmpty)
  let sections ← ofExcept (Sections.locate input)
  note? (sections.flaw?.map .blockIgnored)
  let directory ← ofExcept (sections.readDirectory input)
  let records ← ofExcept (Directory.parse sections.recordCount sections.directoryOffset directory)
  let block := sections.signingBlock?.map (·.contents)
  note (.inputLocated records.length sections.directoryOffset block.isSome)
  ask (engine.inputBlock block) fun _ => .inputBlock block
  let entries ← ofExcept (input.slice 0 sections.entriesSize)
  let sweep ← sweepEntries engine config entries records
  let kept := sweep.records
  let (added, offset) ← addEntries engine deflate kept sweep.offset
  let blockSize ← writeDirectory engine config sections.endRecord (kept ++ added) offset
  let summary : Summary := {
    copied := kept.length
    realigned := sweep.fates.countP Fate.isRealigned
    skipped := sweep.fates.count .skipped
    replaced := sweep.fates.count .replaced
    added := added.length
    blockSize
    outputSize := ← position }
  ask engine.finished fun _ => .finished
  note (.finished summary)
  return summary

end ApkArchive.Signing

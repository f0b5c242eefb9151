import ApkArchive.Zip.EndRecord
import ApkArchive.Zip.SigningBlock

/-!
# The sections of an archive

An archive is found from its end: the end record tells where the directory is, and a signing
block may stand before the directory. The end record is the last one that is consistent, that is,
whose comment reaches exactly to the end of the archive. The sections lie side by side:

    entries, signing block if there is one, directory, end record
-/

namespace ApkArchive

namespace EndRecord

/-- The longest comment. -/
def maxComment : Nat := 65535

/-- The record that a buffer consists of, if it is a consistent one. -/
def ofSuffix? (bytes : Bytes) : Option EndRecord :=
  match parse bytes with
  | .ok record => if record.isConsistent then some record else none
  | .error _ => none

/-- The last consistent record that reaches to the end of a buffer, and its offset. The buffer
begins at `offset`, and `best` is the last one that begins before it. -/
def lastConsistent (best : Option (EndRecord × Nat)) (offset : Nat) :
    Bytes → Option (EndRecord × Nat)
  | [] => best
  | byte :: rest =>
    let best := match ofSuffix? (byte :: rest) with
      | some record => some (record, offset)
      | none => best
    lastConsistent best (offset + 1) rest

/-- Looks for a consistent record whose comment is at most so long. -/
def search (apk : View) (maxComment : Nat) : Except Error (Option (EndRecord × Nat)) := do
  let maxComment := min maxComment (apk.size - fixedSize)
  let start := apk.size - fixedSize - maxComment
  return lastConsistent none start (← apk.read start (fixedSize + maxComment))

/-- The end record of an archive, and its offset. Most archives have no comment, so the last 22
bytes are tried first. -/
def find (apk : View) : Except Error (Option (EndRecord × Nat)) := do
  if apk.size < fixedSize then return none
  match ← search apk 0 with
  | some found => return some found
  | none => search apk maxComment

end EndRecord

/-- Where the parts of an archive are. -/
structure Sections where
  /-- Where the directory begins. -/
  directoryOffset : Nat
  /-- How many bytes the directory has. -/
  directorySize : Nat
  /-- How many records the end record counts. -/
  recordCount : Nat
  /-- Where the end record begins. -/
  endOffset : Nat
  endRecord : EndRecord
  /-- What stands before the directory. -/
  beforeDirectory : SigningBlock.Search

namespace Sections

/-- The signing block, if there is one. -/
def signingBlock? (sections : Sections) : Option SigningBlock :=
  match sections.beforeDirectory with
  | .found block => some block
  | _ => none

/-- Why what stands before the directory is no signing block, if it looks like one. -/
def flaw? (sections : Sections) : Option SigningBlock.Flaw :=
  match sections.beforeDirectory with
  | .ignored flaw => some flaw
  | _ => none

/-- The size of the section that holds the entries. -/
def entriesSize (sections : Sections) : Nat :=
  match sections.signingBlock? with
  | some block => block.offset
  | none => sections.directoryOffset

/-- Finds the sections of an archive. -/
def locate (apk : View) : Except Error Sections := do
  let some (record, offset) ← EndRecord.find apk | throw (.fault .endRecordNotFound)
  if record.isZip64 then throw (.faultAt offset .zip64)
  let start := record.directoryOffset.toNat
  if offset < start then throw (.faultAt offset (.directoryStartOutOfRange start offset))
  let stop := start + record.directorySize.toNat
  if stop ≠ offset then throw (.faultAt offset (.directoryNotContiguous stop offset))
  return {
    directoryOffset := start
    directorySize := record.directorySize.toNat
    recordCount := record.totalEntries.toNat
    endOffset := offset
    endRecord := record
    beforeDirectory := ← SigningBlock.find apk start }

/-- The bytes of a directory of `size` bytes at `offset`. -/
def readDirectoryAt (apk : View) (offset size : Nat) : Except Error Bytes := do
  if View.maxBufferSize < size then throw (.faultAt offset (.directoryTooLarge size))
  apk.read offset size

/-- The bytes of the directory. -/
def readDirectory (sections : Sections) (apk : View) : Except Error Bytes :=
  readDirectoryAt apk sections.directoryOffset sections.directorySize

end Sections
end ApkArchive

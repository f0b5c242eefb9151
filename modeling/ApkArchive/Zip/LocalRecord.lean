import ApkArchive.Storage.View
import ApkArchive.Zip.DirectoryRecord
import ApkArchive.Zip.LocalHeader

/-!
# Local records

The local record of an entry is its header, its name, its extra field, its data and, if a flag
says so, a data descriptor. The directory has the last word: `locate` finds the local record to
which a directory record points and checks that the two agree. With a data descriptor the
checksum and the sizes of the local header have no meaning and are not compared.

No part of a record may reach past the place where the entries end.
-/

namespace ApkArchive

/-- The local record of an entry, as it was found in an archive. -/
structure LocalRecord where
  name : String
  /-- The size of the name in bytes. -/
  nameSize : Nat
  extra : Bytes
  /-- Where the record begins. -/
  start : Nat
  /-- The size of the record, data and data descriptor included. -/
  size : Nat
  /-- The size of the data. -/
  dataSize : Nat
  method : Method
  uncompressedSize : Nat
  deriving DecidableEq, Repr

namespace LocalRecord

/-- Where the extra field begins, from the start of the record. -/
def extraStart (record : LocalRecord) : Nat := LocalHeader.fixedSize + record.nameSize

/-- Where the data begins, from the start of the record. -/
def dataStart (record : LocalRecord) : Nat := record.extraStart + record.extra.length

/-- Where the record ends. -/
def stop (record : LocalRecord) : Nat := record.start + record.size

/-- Whether the data is compressed in some way. -/
def isCompressed (record : LocalRecord) : Bool := record.method ≠ .stored

/-- The first four bytes of a data descriptor, which may be missing. -/
def descriptorMagic : UInt32 := 0x08074b50

/-- The size of a data descriptor without its first four bytes. -/
def descriptorSize : Nat := 12

/-- Checks that a local header agrees with the directory record of the entry. -/
def checkHeader (record : DirectoryRecord) (header : LocalHeader) : Except Fault Unit := do
  let name := record.name
  if header.signature ≠ LocalHeader.magic then throw (.notLocalHeader name header.signature)
  if header.hasDescriptor ≠ record.hasDescriptor then
    throw (.descriptorMismatch name header.hasDescriptor record.hasDescriptor)
  if !header.hasDescriptor then
    if header.crc32 ≠ record.crc32 then
      throw (.checksumMismatch name header.crc32 record.crc32)
    if header.compressedSize ≠ record.compressedSize then
      throw (.compressedSizeMismatch name header.compressedSize record.compressedSize)
    if header.uncompressedSize ≠ record.uncompressedSize then
      throw (.uncompressedSizeMismatch name header.uncompressedSize record.uncompressedSize)

/-- Checks that the local name, with which `bytes` begins, is the name in the directory. -/
def checkName (record : DirectoryRecord) (nameSize : Nat) (bytes : Bytes) : Except Fault Unit := do
  let name := record.name
  if record.nameBytes.length < nameSize then
    throw (.nameLengthMismatch name nameSize record.nameBytes.length)
  let localName := bytes.take nameSize
  if localName ≠ record.nameBytes then
    throw (.nameMismatch (LossyUtf8.decode localName) name)

/-- Where the data descriptor ends that begins at `dataStop`. -/
def descriptorStop (entries : View) (name : String) (dataStop directory : Nat) :
    Except Error (Except Fault Nat) := do
  let stop := dataStop + descriptorSize
  if directory < stop then return .error (.descriptorOverlap name stop directory)
  let sign ← entries.copy dataStop 4
  if sign ≠ Bytes.word32 descriptorMagic then return .ok stop
  if directory < stop + 4 then return .error (.descriptorOverlap name (stop + 4) directory)
  return .ok (stop + 4)

/-- The size of the data of an entry, as the directory has it. -/
def dataSizeOf (record : DirectoryRecord) : Nat :=
  match record.method with
  | .stored => record.uncompressedSize.toNat
  | _ => record.compressedSize.toNat

/-- The local record to which a directory record points. `entries` are the bytes of the archive
from its start on, and `directory` is where the entries end. -/
def locate (entries : View) (record : DirectoryRecord) (directory : Nat) :
    Except Error LocalRecord := do
  let start := record.localOffset.toNat
  let blame {α : Type} (result : Except Fault α) : Except Error α :=
    result.mapError (Error.faultAt start)
  let name := record.name
  let headerSize := LocalHeader.fixedSize + record.nameBytes.length
  let headerStop := start + headerSize
  if directory < headerStop then
    blame (throw (.localHeaderPastDirectory name headerStop directory))
  let bytes ← entries.read start headerSize
  let some (header, nameBytes) := LocalHeader.read.run bytes
    | blame (throw (.notLocalHeader name 0))
  blame (checkHeader record header)
  let nameSize := header.nameSize.toNat
  blame (checkName record nameSize nameBytes)
  let extraSize := header.extraSize.toNat
  let dataStart := start + LocalHeader.fixedSize + nameSize + extraSize
  let dataSize := dataSizeOf record
  let dataStop := dataStart + dataSize
  if directory < dataStop then
    blame (throw (.dataOverlap name dataStart dataStop directory))
  let extra ←
    if extraSize = 0 then pure []
    else entries.read (start + LocalHeader.fixedSize + nameSize) extraSize
  let stop ←
    if header.hasDescriptor then blame (← descriptorStop entries name dataStop directory)
    else pure dataStop
  return { name, nameSize, extra, start, size := stop - start, dataSize, method := record.method,
           uncompressedSize := record.uncompressedSize.toNat }

end LocalRecord
end ApkArchive

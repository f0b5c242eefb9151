import ApkArchive.Deflate.Inflate
import ApkArchive.Zip.LocalRecord

/-!
# Writing local records and their data

A record is copied as it is, or with another extra field; then only the size of the extra field
changes in the header. The data of an entry can be written uncompressed: stored data as it is,
deflated data inflated. The checksum of inflated data is not looked at, its size is.
-/

namespace ApkArchive.LocalRecord

/-- Copies the record as it is. Returns the number of bytes written. -/
def copy (record : LocalRecord) (entries : View) : Emit Nat := do
  entries.feed record.start record.size
  return record.size

/-- Copies the record with another extra field. Returns the number of bytes written. -/
def copyWithExtra (record : LocalRecord) (entries : View) (extra : Bytes) : Emit Nat := do
  if 65536 ≤ extra.length then throw (.fault (.extraTooLarge record.name extra.length))
  let header ← ofExcept (entries.copy record.start record.extraStart)
  Sink.write (header.take LocalHeader.extraSizeOffset ++ Bytes.word16 (UInt16.ofNat extra.length) ++
    header.drop LocalHeader.fixedSize ++ extra)
  let left := record.size - record.dataStart
  entries.feed (record.start + record.dataStart) left
  return record.extraStart + extra.length + left

/-- Writes what a DEFLATE stream holds, if it is exactly a stream and its data has the size that
the directory says. `stream` is what could be read of it, and `read` is how reading it went. -/
def emitInflated (record : LocalRecord) (stream : Bytes) (read : Except Error Unit) :
    Emit Unit := do
  let (data, ending) := Deflate.inflate stream
  Sink.write data.data.toList
  match ending with
  | .corrupt => throw (.fault (.corruptStream record.name))
  | .complete (_ + 1) => throw (.fault (.trailingBytes record.name))
  | _ =>
    ofExcept read
    if data.size ≠ record.uncompressedSize then
      throw (.fault (.inflatedSizeMismatch record.name record.uncompressedSize data.size))

/-- Writes the data of the entry uncompressed. -/
def emitData (record : LocalRecord) (entries : View) : Emit Unit := do
  let start := record.start + record.dataStart
  match record.method with
  | .stored => entries.feed start record.dataSize
  | .deflate =>
    match (entries.feed start record.dataSize).run {} with
    | .ok _ stream => record.emitInflated stream.contents.data.toList (.ok ())
    | .error error stream => record.emitInflated stream.contents.data.toList (.error error)
  | .other code => throw (.unsupportedCompression record.name code)

/-- Writes the record of a new entry whose data is deflated already. Returns the number of bytes
written. -/
def emitNew (name : String) (modified : Timestamp) (compressed : Bytes)
    (crc32 uncompressedSize : UInt32) : Emit Nat := do
  let nameBytes := LossyUtf8.encode name
  if 65536 ≤ nameBytes.length then throw (.fault (.nameTooLong name))
  if UInt32.size ≤ compressed.length then throw (.fault (.entryTooLarge name))
  let header := LocalHeader.newDeflated modified crc32 (UInt32.ofNat compressed.length)
    uncompressedSize (UInt16.ofNat nameBytes.length)
  Sink.write (header.encode ++ nameBytes)
  Sink.write compressed
  return LocalHeader.fixedSize + nameBytes.length + compressed.length

end ApkArchive.LocalRecord

import ApkArchive.Bytes.Reader
import ApkArchive.Error
import ApkArchive.Text.LossyUtf8
import ApkArchive.Zip.EntryFields

/-!
# Directory records

The directory of an archive has a record for each entry. A record keeps every field it was parsed
with, so that `encode` gives its bytes back; a record that is moved differs in its offset alone.

    parse bytes = ok (record, rest) ↔ bytes = encode record ++ rest
-/

namespace ApkArchive

/-- The record of an entry in the directory. The lengths of the name, the extra field and the
comment are words. -/
structure DirectoryRecord where
  madeBy : UInt16
  needed : UInt16
  flags : UInt16
  methodCode : UInt16
  time : UInt16
  date : UInt16
  crc32 : UInt32
  compressedSize : UInt32
  uncompressedSize : UInt32
  disk : UInt16
  internalAttributes : UInt16
  externalAttributes : UInt32
  /-- Where the local record of the entry begins. -/
  localOffset : UInt32
  nameBytes : Bytes
  extra : Bytes
  comment : Bytes
  nameFits : nameBytes.length < 65536
  extraFits : extra.length < 65536
  commentFits : comment.length < 65536
  deriving DecidableEq, Repr

namespace DirectoryRecord

/-- The first four bytes. -/
def signature : UInt32 := 0x02014b50

/-- The size without name, extra field and comment. -/
def fixedSize : Nat := 46

/-- The name as text. -/
def name (record : DirectoryRecord) : String := LossyUtf8.decode record.nameBytes

/-- Whether a data descriptor follows the data. -/
def hasDescriptor (record : DirectoryRecord) : Bool := record.flags &&& descriptorFlag ≠ 0

def method (record : DirectoryRecord) : Method := .ofCode record.methodCode

def modified (record : DirectoryRecord) : Timestamp := ⟨record.date, record.time⟩

/-- The size of the record. -/
def size (record : DirectoryRecord) : Nat :=
  fixedSize + record.nameBytes.length + record.extra.length + record.comment.length

/-- The record of the same entry at another offset. -/
def withLocalOffset (record : DirectoryRecord) (offset : UInt32) : DirectoryRecord :=
  { record with localOffset := offset }

/-- What follows the signature. -/
def encodeFields (record : DirectoryRecord) : Bytes :=
  Bytes.word16 record.madeBy ++ (Bytes.word16 record.needed ++ (Bytes.word16 record.flags ++
    (Bytes.word16 record.methodCode ++ (Bytes.word16 record.time ++ (Bytes.word16 record.date ++
      (Bytes.word32 record.crc32 ++ (Bytes.word32 record.compressedSize ++
        (Bytes.word32 record.uncompressedSize ++
          (Bytes.word16 (UInt16.ofNat record.nameBytes.length) ++
            (Bytes.word16 (UInt16.ofNat record.extra.length) ++
              (Bytes.word16 (UInt16.ofNat record.comment.length) ++
                (Bytes.word16 record.disk ++ (Bytes.word16 record.internalAttributes ++
                  (Bytes.word32 record.externalAttributes ++ (Bytes.word32 record.localOffset ++
                    (record.nameBytes ++ (record.extra ++ record.comment)))))))))))))))))

/-- The bytes of a record. -/
def encode (record : DirectoryRecord) : Bytes := Bytes.word32 signature ++ record.encodeFields

theorem length_encode (record : DirectoryRecord) : record.encode.length = record.size := by
  simp only [encode, encodeFields, List.length_append, Bytes.length_word32, Bytes.length_word16,
    size, fixedSize]
  omega

/-- The fixed part of a record without its signature; the lengths of the variable fields stand in
the middle of it. -/
structure Header where
  madeBy : UInt16
  needed : UInt16
  flags : UInt16
  methodCode : UInt16
  time : UInt16
  date : UInt16
  crc32 : UInt32
  compressedSize : UInt32
  uncompressedSize : UInt32
  nameSize : UInt16
  extraSize : UInt16
  commentSize : UInt16
  disk : UInt16
  internalAttributes : UInt16
  externalAttributes : UInt32
  localOffset : UInt32

namespace Header

/-- The size of the record to which a header belongs. -/
def recordSize (header : Header) : Nat :=
  fixedSize + header.nameSize.toNat + header.extraSize.toNat + header.commentSize.toNat

def read : Reader Header := do
  let madeBy ← Reader.word16
  let needed ← Reader.word16
  let flags ← Reader.word16
  let methodCode ← Reader.word16
  let time ← Reader.word16
  let date ← Reader.word16
  let crc32 ← Reader.word32
  let compressedSize ← Reader.word32
  let uncompressedSize ← Reader.word32
  let nameSize ← Reader.word16
  let extraSize ← Reader.word16
  let commentSize ← Reader.word16
  let disk ← Reader.word16
  let internalAttributes ← Reader.word16
  let externalAttributes ← Reader.word32
  let localOffset ← Reader.word32
  return { madeBy, needed, flags, methodCode, time, date, crc32, compressedSize, uncompressedSize,
           nameSize, extraSize, commentSize, disk, internalAttributes, externalAttributes,
           localOffset }

/-- The record that a header and what follows it make up, and the rest. -/
def complete? (header : Header) (bytes : Bytes) : Option (DirectoryRecord × Bytes) :=
  match name : Bytes.split? header.nameSize.toNat bytes with
  | none => none
  | some (nameBytes, rest) =>
    match extra : Bytes.split? header.extraSize.toNat rest with
    | none => none
    | some (extraBytes, rest) =>
      match comment : Bytes.split? header.commentSize.toNat rest with
      | none => none
      | some (commentBytes, rest) =>
        some ({
          madeBy := header.madeBy
          needed := header.needed
          flags := header.flags
          methodCode := header.methodCode
          time := header.time
          date := header.date
          crc32 := header.crc32
          compressedSize := header.compressedSize
          uncompressedSize := header.uncompressedSize
          disk := header.disk
          internalAttributes := header.internalAttributes
          externalAttributes := header.externalAttributes
          localOffset := header.localOffset
          nameBytes
          extra := extraBytes
          comment := commentBytes
          nameFits := (Bytes.split?_eq_some_iff.1 name).2 ▸ header.nameSize.toNat_lt
          extraFits := (Bytes.split?_eq_some_iff.1 extra).2 ▸ header.extraSize.toNat_lt
          commentFits := (Bytes.split?_eq_some_iff.1 comment).2 ▸ header.commentSize.toNat_lt
        }, rest)

end Header

/-- The signature and the header with which a buffer begins, and what follows them. -/
def readHeader : Reader (UInt32 × Header) := do
  let sign ← Reader.word32
  let header ← Header.read
  return (sign, header)

/-- The record with which a buffer begins, and what follows it. -/
def parse (bytes : Bytes) : Except Fault (DirectoryRecord × Bytes) :=
  match readHeader.run bytes with
  | none => .error (.recordHeaderTooShort bytes.length)
  | some ((sign, header), rest) =>
    if sign ≠ signature then .error (.notDirectoryRecord sign)
    else
      match header.complete? rest with
      | none => .error (.recordTooShort header.recordSize bytes.length)
      | some found => .ok found

/-- The record of a new deflated entry with a UTF-8 name. -/
def newDeflated (name : String) (modified : Timestamp)
    (crc32 compressedSize uncompressedSize localOffset : UInt32) : Except Error DirectoryRecord :=
  let nameBytes := LossyUtf8.encode name
  if fits : nameBytes.length < 65536 then
    .ok {
      madeBy := deflateVersion
      needed := deflateVersion
      flags := utf8Flag
      methodCode := Method.deflate.code
      time := modified.time
      date := modified.date
      crc32, compressedSize, uncompressedSize
      disk := 0
      internalAttributes := 0
      externalAttributes := 0
      localOffset, nameBytes
      extra := []
      comment := []
      nameFits := fits
      extraFits := by decide
      commentFits := by decide }
  else .error (.fault (.nameTooLong name))

end DirectoryRecord
end ApkArchive

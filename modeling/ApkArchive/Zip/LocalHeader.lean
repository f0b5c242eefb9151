import ApkArchive.Bytes.Reader
import ApkArchive.Zip.EntryFields

/-!
# Local headers

The local record of an entry begins with a header of 30 bytes, which is followed by the name and
the extra field.

    read.run bytes = some (header, rest) ↔ bytes = encode header ++ rest
-/

namespace ApkArchive

/-- The fixed part of a local record. -/
structure LocalHeader where
  signature : UInt32
  needed : UInt16
  flags : UInt16
  methodCode : UInt16
  time : UInt16
  date : UInt16
  crc32 : UInt32
  compressedSize : UInt32
  uncompressedSize : UInt32
  nameSize : UInt16
  extraSize : UInt16
  deriving DecidableEq, Repr

namespace LocalHeader

/-- The first four bytes of a local record. -/
def magic : UInt32 := 0x04034b50

/-- The size of a header. -/
def fixedSize : Nat := 30

/-- The offset of the size of the extra field, which ends the header. -/
def extraSizeOffset : Nat := 28

/-- Whether a data descriptor follows the data. -/
def hasDescriptor (header : LocalHeader) : Bool := header.flags &&& descriptorFlag ≠ 0

/-- The bytes of a header. -/
def encode (header : LocalHeader) : Bytes :=
  Bytes.word32 header.signature ++ (Bytes.word16 header.needed ++ (Bytes.word16 header.flags ++
    (Bytes.word16 header.methodCode ++ (Bytes.word16 header.time ++ (Bytes.word16 header.date ++
      (Bytes.word32 header.crc32 ++ (Bytes.word32 header.compressedSize ++
        (Bytes.word32 header.uncompressedSize ++ (Bytes.word16 header.nameSize ++
          Bytes.word16 header.extraSize)))))))))

/-- The header with which a buffer begins. -/
def read : Reader LocalHeader := do
  let signature ← Reader.word32
  let needed ← Reader.word16
  let flags ← Reader.word16
  let methodCode ← Reader.word16
  let time ← Reader.word16
  let date ← Reader.word16
  let crc32 ← Reader.word32
  let compressedSize ← Reader.word32
  let uncompressedSize ← Reader.word32
  let nameSize ← Reader.word16
  let extraSize ← Reader.word16
  return { signature, needed, flags, methodCode, time, date, crc32, compressedSize,
           uncompressedSize, nameSize, extraSize }

theorem length_encode (header : LocalHeader) : header.encode.length = fixedSize := by
  simp only [encode, List.length_append, Bytes.length_word32, Bytes.length_word16, fixedSize]

/-- The header of a new deflated entry with a UTF-8 name. -/
def newDeflated (modified : Timestamp) (crc32 compressedSize uncompressedSize : UInt32)
    (nameSize : UInt16) : LocalHeader where
  signature := magic
  needed := deflateVersion
  flags := utf8Flag
  methodCode := Method.deflate.code
  time := modified.time
  date := modified.date
  crc32 := crc32
  compressedSize := compressedSize
  uncompressedSize := uncompressedSize
  nameSize := nameSize
  extraSize := 0

end LocalHeader
end ApkArchive

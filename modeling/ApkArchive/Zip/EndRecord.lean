import ApkArchive.Bytes.Reader
import ApkArchive.Error

/-!
# The end record

The last record of an archive tells where its directory is. `encode` writes one and `parse` reads
one; a record may carry a comment, which reaches to the end of what was parsed. The record is
consistent if its length field is the length of that comment.

    parse bytes = ok record ↔ bytes = encode record
-/

namespace ApkArchive

/-- The record at the end of an archive. -/
structure EndRecord where
  diskNumber : UInt16
  directoryDisk : UInt16
  diskEntries : UInt16
  totalEntries : UInt16
  directorySize : UInt32
  directoryOffset : UInt32
  commentLength : UInt16
  comment : Bytes
  deriving DecidableEq, Repr

namespace EndRecord

/-- The first four bytes. -/
def signature : UInt32 := 0x06054b50

/-- The size without a comment. -/
def fixedSize : Nat := 22

/-- The value of a count that refers to a ZIP64 record. -/
def zip64Count : UInt16 := 0xFFFF

/-- The value of a size or an offset that refers to a ZIP64 record. -/
def zip64Word : UInt32 := 0xFFFFFFFF

/-- What follows the signature. -/
def encodeFields (record : EndRecord) : Bytes :=
  Bytes.word16 record.diskNumber ++ (Bytes.word16 record.directoryDisk ++
    (Bytes.word16 record.diskEntries ++ (Bytes.word16 record.totalEntries ++
      (Bytes.word32 record.directorySize ++ (Bytes.word32 record.directoryOffset ++
        (Bytes.word16 record.commentLength ++ record.comment))))))

/-- The bytes of a record. -/
def encode (record : EndRecord) : Bytes := Bytes.word32 signature ++ record.encodeFields

/-- What follows the signature; all that follows the fields is the comment. -/
def readFields : Reader EndRecord := do
  let diskNumber ← Reader.word16
  let directoryDisk ← Reader.word16
  let diskEntries ← Reader.word16
  let totalEntries ← Reader.word16
  let directorySize ← Reader.word32
  let directoryOffset ← Reader.word32
  let commentLength ← Reader.word16
  let comment ← get
  return { diskNumber, directoryDisk, diskEntries, totalEntries, directorySize, directoryOffset,
           commentLength, comment }

/-- The signature that a buffer carries, and the record after it; only the length is checked. -/
def layout? (bytes : Bytes) : Option (UInt32 × EndRecord) := do
  let (sign, rest) ← Reader.word32.run bytes
  let (record, _) ← readFields.run rest
  return (sign, record)

/-- The record that a buffer consists of. -/
def parse (bytes : Bytes) : Except Fault EndRecord :=
  match layout? bytes with
  | none => .error (.endRecordTooShort bytes.length)
  | some (sign, record) => if sign = signature then .ok record else .error (.notEndRecord sign)

/-- Whether the comment is as long as the record says. -/
def isConsistent (record : EndRecord) : Bool :=
  record.commentLength.toNat = record.comment.length

/-- Whether a field refers to a ZIP64 record. -/
def isZip64 (record : EndRecord) : Bool :=
  record.diskEntries = zip64Count || record.totalEntries = zip64Count ||
    record.directorySize = zip64Word || record.directoryOffset = zip64Word

/-- The record for another directory; nothing else changes. -/
def withDirectory (record : EndRecord) (count : UInt16) (size offset : UInt32) : EndRecord :=
  { record with
    diskEntries := count
    totalEntries := count
    directorySize := size
    directoryOffset := offset }

/-- The record for a directory that has been moved. -/
def withDirectoryOffset (record : EndRecord) (offset : UInt32) : EndRecord :=
  { record with directoryOffset := offset }

/-- The record with `extra` zero bytes after its comment, if the length field has room for that. -/
def padComment (record : EndRecord) (extra : Nat) : Except Fault EndRecord :=
  let size := record.commentLength.toNat + extra
  if size < 65536 then
    .ok { record with
      commentLength := UInt16.ofNat size
      comment := record.comment ++ Bytes.zeros extra }
  else .error (.commentTooLong size)

theorem run_readFields_eq_some_iff {bytes : Bytes} {record : EndRecord} {rest : Bytes} :
    readFields.run bytes = some (record, rest) ↔
      bytes = record.encodeFields ∧ rest = record.comment := by
  constructor
  · intro h
    simp only [readFields, StateT.run_bind, Option.bind_eq_bind, Option.bind_eq_some_iff,
      Prod.exists, Reader.word16_run_eq_some_iff, Reader.word32_run_eq_some_iff, StateT.run_get,
      pure, Option.some.injEq, Prod.mk.injEq] at h
    obtain ⟨_, _, rfl, _, _, rfl, _, _, rfl, _, _, rfl, _, _, rfl, _, _, rfl, _, _, rfl,
      _, _, ⟨rfl, rfl⟩, rfl, rfl⟩ := h
    exact ⟨rfl, rfl⟩
  · rintro ⟨rfl, rfl⟩
    simp only [readFields, encodeFields, StateT.run_bind, Option.bind_eq_bind,
      Reader.word16_run_eq_some_iff.2 rfl, Reader.word32_run_eq_some_iff.2 rfl,
      Option.bind_some, StateT.run_get, pure]
    rfl

theorem layout?_eq_some_iff {bytes : Bytes} {sign : UInt32} {record : EndRecord} :
    layout? bytes = some (sign, record) ↔ bytes = Bytes.word32 sign ++ record.encodeFields := by
  simp only [layout?, Option.bind_eq_bind, Option.bind_eq_some_iff, Prod.exists,
    Reader.word32_run_eq_some_iff, run_readFields_eq_some_iff, Option.some.injEq, Prod.mk.injEq,
    pure]
  constructor
  · rintro ⟨_, _, rfl, _, _, ⟨rfl, rfl⟩, rfl, rfl⟩
    rfl
  · rintro rfl
    exact ⟨sign, _, rfl, record, _, ⟨rfl, rfl⟩, rfl, rfl⟩

theorem parse_eq_ok_iff {bytes : Bytes} {record : EndRecord} :
    parse bytes = .ok record ↔ bytes = record.encode := by
  unfold parse
  split
  · next h =>
    constructor
    · intro contra; cases contra
    · rintro rfl
      cases h.symm.trans (layout?_eq_some_iff.2 rfl)
  · next sign found h =>
    rw [layout?_eq_some_iff] at h
    constructor
    · intro run
      split at run
      · next signed => cases run; rw [h, signed, encode]
      · cases run
    · rintro rfl
      have : some (signature, record) = some (sign, found) :=
        (layout?_eq_some_iff.2 rfl).symm.trans (layout?_eq_some_iff.2 h)
      cases this
      simp

theorem length_encode (record : EndRecord) :
    record.encode.length = fixedSize + record.comment.length := by
  simp only [encode, encodeFields, List.length_append, Bytes.length_word32, Bytes.length_word16,
    fixedSize]
  omega

end EndRecord
end ApkArchive

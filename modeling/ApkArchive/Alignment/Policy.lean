import ApkArchive.Alignment.ExtraField
import ApkArchive.Zip.LocalRecord

/-!
# Which entries are aligned, and how

Stored data may be mapped into memory straight out of the archive, so it has to begin at a
suitable boundary: a page for shared libraries, a boundary that the user chooses for all else.
Compressed data needs none. An entry that lands on its boundary anyway is left as it is.
-/

namespace ApkArchive.Alignment

/-- The boundary of shared libraries. -/
def pageSize : UInt16 := 4096

/-- Whether an entry is a shared library, by its name. -/
def isLibrary (name : String) : Bool := ".so".toList.isSuffixOf name.toList

/-- What to align the data of entries to. -/
structure Policy where
  /-- The boundary of stored data other than shared libraries; zero switches alignment off, for
  libraries too. -/
  default : UInt16 := 4
  /-- Leave entries alone that were not aligned in the input. -/
  preserve : Bool := false
  deriving DecidableEq, Repr

namespace Policy

/-- The boundary for the data of an entry; 1 means none. -/
def alignmentFor (policy : Policy) (name : String) (compressed : Bool) : UInt16 :=
  if compressed || policy.default = 0 then 1
  else if isLibrary name then pageSize
  else policy.default

end Policy

/-- How a local record is written. -/
inductive Plan
  /-- As it is. -/
  | unchanged
  /-- With another extra field. -/
  | realign (alignment : UInt16) (extra : Bytes)
  deriving DecidableEq, Repr

/-- How a record is written whose header lands at `offset` of the output. -/
def Policy.plan (policy : Policy) (record : LocalRecord) (offset : Nat) : Plan :=
  let alignment := policy.alignmentFor record.name record.isCompressed
  let multiple := alignment.toNat
  if multiple ≤ 1 then .unchanged
  else if (offset + record.dataStart) % multiple = 0 then .unchanged
  else if policy.preserve && (record.start + record.dataStart) % multiple ≠ 0 then .unchanged
  else .realign alignment (ExtraField.align record.extra (offset + record.extraStart) alignment)

/-- Where the data begins in the written record, from the start of the record. -/
def Plan.dataStart (plan : Plan) (record : LocalRecord) : Nat :=
  match plan with
  | unchanged => record.dataStart
  | realign _ extra => record.extraStart + extra.length

end ApkArchive.Alignment

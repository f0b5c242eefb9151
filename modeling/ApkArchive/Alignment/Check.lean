import ApkArchive.Alignment.Policy
import ApkArchive.Zip.Directory
import ApkArchive.Zip.Sections

/-!
# Checking the alignment of an archive
-/

namespace ApkArchive.Alignment

/-- Where the data of an entry begins, and the boundary that it should begin at. -/
structure Placement where
  name : String
  dataOffset : Nat
  alignment : UInt16
  compressed : Bool
  deriving DecidableEq, Repr

namespace Placement

/-- How far the data is from the boundary before it. -/
def excess (placement : Placement) : Nat := placement.dataOffset % placement.alignment.toNat

def isAligned (placement : Placement) : Bool := placement.excess = 0

end Placement

/-- The placement of the entry to which a directory record points. -/
def placementOf (policy : Policy) (entries : View) (record : DirectoryRecord) :
    Except Error Placement := do
  let found ← LocalRecord.locate entries record entries.size
  return {
    name := found.name
    dataOffset := found.start + found.dataStart
    alignment := policy.alignmentFor found.name found.isCompressed
    compressed := found.isCompressed }

/-- The placement of every entry of an archive with the given sections, in the order in which they
stand in it. -/
def placements (apk : View) (sections : Sections) (alignment : UInt16) :
    Except Error (List Placement) := do
  let directory ← sections.readDirectory apk
  let records ← Directory.parse sections.recordCount sections.directoryOffset directory
  let entries ← apk.slice 0 sections.entriesSize
  (Directory.inFileOrder records).mapM fun (record, _) =>
    placementOf { default := alignment } entries record

/-- The placement of every entry of an archive. -/
def check (apk : View) (alignment : UInt16) : Except Error (List Placement) := do
  placements apk (← Sections.locate apk) alignment

end ApkArchive.Alignment

import Std.Data.TreeSet
import ApkArchive.Zip.DirectoryRecord

/-!
# Directories

A directory is a sequence of records, as many as the end record counts, with pairwise distinct
names and nothing after them. The first record that breaks this is named in the error by its
number, counted from one, and by its offset in the archive.
-/

namespace ApkArchive.Directory

/-- Parses `count` more records, the first of which has the given number and offset. `found` are the
ones before them, last one first, and `names` their names. -/
def parseOnto (found : List DirectoryRecord) (names : Std.TreeSet String) (number offset : Nat) :
    (count : Nat) → (bytes : Bytes) → Except Error (List DirectoryRecord)
  | 0, bytes =>
    if bytes.isEmpty then .ok found.reverse
    else .error (.faultAt offset (.unusedDirectorySpace bytes.length))
  | count + 1, bytes =>
    match DirectoryRecord.parse bytes with
    | .error fault => .error (.format fault ⟨some number, some offset⟩)
    | .ok (record, rest) =>
      let name := record.name
      if names.contains name then
        .error (.format (.duplicateName name) ⟨some number, some offset⟩)
      else
        parseOnto (record :: found) (names.insert name) (number + 1) (offset + record.size) count
          rest

/-- The records of a directory that begins at `offset` in the archive. -/
def parse (count offset : Nat) (bytes : Bytes) : Except Error (List DirectoryRecord) :=
  parseOnto [] ∅ 1 offset count bytes

/-- The bytes of a directory. -/
def encode (records : List DirectoryRecord) : Bytes := records.flatMap DirectoryRecord.encode

/-- The size of a directory. -/
def size (records : List DirectoryRecord) : Nat := records.foldr (fun record n => record.size + n) 0

/-- The records with their numbers, counted from zero, in the order in which their entries stand in
the archive; records with the same offset keep their order. -/
def inFileOrder (records : List DirectoryRecord) : List (DirectoryRecord × Nat) :=
  records.zipIdx.mergeSort fun a b => a.1.localOffset ≤ b.1.localOffset

end ApkArchive.Directory

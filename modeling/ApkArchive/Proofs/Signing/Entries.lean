import ApkArchive.Proofs.Signing.Outcome

/-!
# The entries of the output

Each record of the new directory points at a local record in the output that agrees with it: for
an entry that was kept, the one that was copied, and for a new entry, the one that was written. The
data of an entry that was kept reads the same in the output as in the input.
-/

namespace ApkArchive

namespace Signing

open LocalRecord (Layout Placed)

namespace Outcome

variable {config : Config} {input : View} {deflate : Bytes → Bytes}
variable (outcome : Outcome config input deflate)

theorem exists_piece {record : DirectoryRecord} (mem : record ∈ outcome.records) :
    ∃ piece ∈ outcome.pieces, piece.record = record := by
  rw [← outcome.listing] at mem
  obtain ⟨piece, mem', same⟩ := List.mem_map.1 mem
  exact ⟨piece, outcome.perm.mem_iff.1 mem', same⟩

theorem exists_split_of_piece {piece : Piece} (mem : piece ∈ outcome.pieces) :
    ∃ front back, outcome.body = front ++ (piece.written ++ back) ∧
      piece.offset = front.length := by
  obtain ⟨before, after, split⟩ := List.append_of_mem mem
  refine ⟨before.flatMap Piece.bytes ++ piece.gap, after.flatMap Piece.bytes ++
    (outcome.tail ++ appendedBytes outcome.additions), ?_, ?_⟩
  · rw [body, bodyBytes, split, List.flatMap_append, List.flatMap_cons, Piece.bytes]
    simp only [List.append_assoc]
  · have place := outcome.laid.place split
    rwa [Nat.zero_add] at place

theorem exists_split_of_addition {addition : Addition} (mem : addition ∈ outcome.additions) :
    ∃ front back, outcome.body = front ++ (addition.layout.bytes ++ back) ∧
      addition.record.localOffset.toNat = front.length := by
  obtain ⟨before, after, split⟩ := List.append_of_mem mem
  refine ⟨outcome.pieces.flatMap Piece.bytes ++ outcome.tail ++ appendedBytes before,
    appendedBytes after, ?_, ?_⟩
  · simp only [body, bodyBytes, split, appendedBytes, List.flatMap_append, List.flatMap_cons,
      List.append_assoc]
  · rw [outcome.appended.place split]
    exact List.length_append.symm

variable {view : View} {rest : Bytes}

/-- An entry that was kept stands where its new record points, as it was planned. -/
theorem placed_moved (shows : view.Shows (outcome.body ++ rest)) {piece : Piece}
    (mem : piece ∈ outcome.pieces) (isKept : piece.isKept = true) :
    ∃ new : Layout piece.record, Copied config outcome.entries piece.layout piece.offset new ∧
      Placed view piece.moved (new.move (UInt32.ofNat piece.offset)) := by
  obtain ⟨new, copied, written⟩ := (outcome.sound piece mem).kept isKept
  obtain ⟨front, back, split, place⟩ := outcome.exists_split_of_piece mem
  have offset : piece.moved.localOffset.toNat = piece.offset :=
    UInt32.toNat_ofNat_of_lt' copied.offsetFits
  rw [split, written, List.append_assoc, List.append_assoc] at shows
  exact ⟨new, copied, .of_split shows (offset.trans place)⟩

/-- A new entry stands where its record points. -/
theorem placed_addition (shows : view.Shows (outcome.body ++ rest)) {addition : Addition}
    (mem : addition ∈ outcome.additions) : Placed view addition.record addition.layout := by
  obtain ⟨front, back, split, place⟩ := outcome.exists_split_of_addition mem
  rw [split, List.append_assoc, List.append_assoc] at shows
  exact .of_split shows place

/-- Every record of the new directory belongs to an entry that was kept or to a new one. -/
theorem mem_directory_iff {record : DirectoryRecord} :
    record ∈ outcome.directory ↔
      (∃ piece ∈ outcome.pieces, piece.isKept = true ∧ piece.moved = record) ∨
        ∃ addition ∈ outcome.additions, addition.record = record := by
  rw [directory, keptRecords, List.mem_append, List.mem_map, List.mem_map]
  simp only [List.mem_filter, outcome.perm.mem_iff, and_assoc]

/-- Whoever finds the end record that was written reads the directory that was written. -/
theorem Describes.records_eq {outcome : Outcome config input deflate} {final : Session σ}
    (described : outcome.Describes final) (shows : view.Shows outcome.bytes) {sections : Sections}
    {records : List DirectoryRecord} {entries : View}
    (archive : view.IsArchive sections records entries)
    (same : sections.endRecord = outcome.endRecord) : records = outcome.directory := by
  obtain ⟨-, -, start, length, number, -, -⟩ := Sections.locate_eq_ok_iff.1 archive.located
  obtain ⟨offset, size, count⟩ := described.endRecord_fields
  rw [same] at start length number
  refine archive.records_eq ?_ (length.trans size) (number.trans count) described.distinct
  -- The end record says where the directory begins, and there it stands.
  have split : outcome.bytes = (outcome.body ++ outcome.request.bytes) ++
      (Directory.encode outcome.directory ++ outcome.endRecord.encode) := by
    rw [bytes, List.append_assoc]
  have has := shows.has split
  rwa [List.length_append, BlockRequest.length_bytes, ← offset, ← start] at has

end Outcome

end Signing
end ApkArchive

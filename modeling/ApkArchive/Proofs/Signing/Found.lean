import ApkArchive.Proofs.Signing.PassThrough

/-!
# Which end record of an output is found

The end record of an output is consistent, so one is found; no place after the directory but the
record's own comment can hide it. The comment is the one of the input, with zero bytes after it if
the size of the output was to be a multiple of something. Nothing checks what these bytes and the
new fields look like: a record that was inconsistent in the comment of the input may become
consistent by the padding, and then it is the one that is found.
-/

namespace ApkArchive

namespace EndRecord

theorem isConsistent_iff {record : EndRecord} :
    record.isConsistent = true ↔ record.commentLength.toNat = record.comment.length :=
  decide_eq_true_iff

theorem PaddedTo.isConsistent {earlier later : EndRecord} (h : earlier.PaddedTo later)
    (consistent : earlier.isConsistent = true) : later.isConsistent = true := by
  obtain ⟨padding, fits, rfl⟩ := h
  rw [isConsistent_iff] at consistent ⊢
  dsimp only
  rw [UInt16.toNat_ofNat_of_lt' fits, consistent, List.length_append, Bytes.length_zeros]

/-- The last consistent record of an archive that ends in one is a part of it. -/
theorem exists_isLast_encode {record : EndRecord} (consistent : record.isConsistent = true) :
    ∃ last place, IsLast record.encode last place := by
  have whole : ofSuffix? (record.encode.drop 0) = some record :=
    ofSuffix?_eq_some_iff.2 ⟨List.drop_zero, consistent⟩
  obtain ⟨last, place, isLast, -⟩ := exists_isLast whole
  exact ⟨last, place, isLast⟩

/-- A consistent record at the end of an archive is found exactly if its comment does not end in
another one. -/
theorem isLast_append_encode_iff {front : Bytes} {record : EndRecord}
    (consistent : record.isConsistent = true) :
    IsLast (front ++ record.encode) record front.length ↔
      ∀ place, 0 < place → ofSuffix? (record.encode.drop place) = none := by
  constructor
  · intro isLast place positive
    have later := isLast.later (front.length + place) (by omega)
    rwa [← List.drop_drop, List.drop_left] at later
  · intro alone
    have isLast : IsLast record.encode record 0 := {
      here := ofSuffix?_eq_some_iff.2 ⟨List.drop_zero, consistent⟩
      later := alone }
    exact isLast.of_append

end EndRecord

namespace Signing

variable {config : Config} {input : View} {deflate : Bytes → Bytes}

theorem Outcome.Describes.isConsistent {outcome : Outcome config input deflate}
    {final : Session σ} (described : outcome.Describes final) :
    outcome.endRecord.isConsistent = true := by
  obtain ⟨search, -⟩ := Sections.locate_eq_ok_iff.1 outcome.archive.located
  have input : outcome.sections.endRecord.isConsistent = true :=
    EndRecord.isConsistent_of_find search
  -- Neither the new fields nor the place of the directory have to do with the comment.
  exact described.closed.negotiated.last_padded.isConsistent input

/-- The record that is found in an output is the last consistent one that begins with the record
that was written or inside of it. It is the one that was written exactly if no end of that one is
consistent, too. -/
theorem written_record_is_found_iff {engine : Engine σ} {start : σ} {sink : Sink}
    {summary : Summary} {final : Session σ}
    (run : (sign engine config input deflate).run { engine := start, output := sink } =
      .ok summary final) :
    ∃ directory endRecord, final.EndsIn directory endRecord ∧ endRecord.isConsistent = true ∧
      ∀ output : View, output.Shows final.output.bytes →
        (∃ last place, EndRecord.IsLast endRecord.encode last place ∧
          EndRecord.find output =
            .ok (some (last, output.size - endRecord.encode.length + place))) ∧
        (EndRecord.find output =
            .ok (some (endRecord, output.size - endRecord.encode.length)) ↔
          ∀ place, 0 < place → EndRecord.ofSuffix? (endRecord.encode.drop place) = none) := by
  obtain ⟨outcome, described⟩ := sign_eq_ok run
  refine ⟨_, _, described.endsIn, described.isConsistent, ?_⟩
  intro output shows
  obtain ⟨front, written, -⟩ := described.endsIn.bytes
  rw [written, ← List.append_assoc] at shows
  have size := shows.size
  rw [List.length_append] at size
  rw [size, Nat.add_sub_cancel]
  refine ⟨?_, ?_⟩
  · obtain ⟨last, place, isLast⟩ := EndRecord.exists_isLast_encode described.isConsistent
    exact ⟨last, place, isLast, EndRecord.find_of_isLast shows isLast.of_append⟩
  · rw [EndRecord.find_eq_ok_some_iff shows]
    exact EndRecord.isLast_append_encode_iff described.isConsistent

/-! ### A record in a comment

The comment of this archive is an end record whose comment is four bytes too short. -/

namespace Sample

/-- The record of an archive of 114 bytes without entries, and with a comment of four bytes. -/
def hidden (comment : Bytes) : EndRecord :=
  { emptyEnd 114 with commentLength := 4, comment }

def commented : Bytes :=
  entries ++ record.encode ++ EndRecord.encode { endRecord with
    commentLength := 22
    comment := (hidden []).encode }

/-- The configuration that pads the comment by four bytes. -/
def padding : Config where
  sizeMultiple := some 140

end Sample

open PassThrough (rewrite rewrites exists_of_rewrites)

/-- The padding completes the record in the comment: the entry was kept, but whoever reads the
output finds an archive without entries. -/
theorem padded_comment_is_found :
    ∃ summary final directory endRecord sections,
      rewrite false Sample.padding Sample.commented = .ok summary final ∧
      final.EndsIn directory endRecord ∧ ("a", Disposition.keep) ∈ final.decisions ∧
      EndRecord.find (View.ofBytes final.output.bytes) ≠ .ok (some (endRecord,
        (View.ofBytes final.output.bytes).size - endRecord.encode.length)) ∧
      Sections.locate (View.ofBytes final.output.bytes) = .ok sections ∧
      sections.recordCount = 0 := by
  have hides : rewrites false Sample.padding Sample.commented (fun final sections =>
      sections.recordCount = 0 && final.decisions.contains ("a", .keep) &&
        writes (fun endRecord => endRecord ≠ sections.endRecord) final) = true := by
    decide +kernel
  obtain ⟨summary, final, sections, result, located, holds⟩ := exists_of_rewrites hides
  rw [Bool.and_eq_true, Bool.and_eq_true, decide_eq_true_eq, List.contains_iff_mem] at holds
  obtain ⟨⟨empty, kept⟩, other⟩ := holds
  obtain ⟨outcome, described⟩ := sign_eq_ok result
  refine ⟨summary, final, _, _, sections, result, described.endsIn, kept, ?_, located, empty⟩
  intro found
  obtain ⟨search, -⟩ := Sections.locate_eq_ok_iff.1 located
  rw [search, Except.ok.injEq, Option.some.injEq, Prod.mk.injEq] at found
  exact of_decide_eq_true (described.endsIn.of_writes other) found.1.symm

/-- Without padding the record in the comment stays inconsistent, and the one that was written is
found. -/
theorem unpadded_comment_is_skipped :
    ∃ summary final directory endRecord,
      rewrite false {} Sample.commented = .ok summary final ∧
      final.EndsIn directory endRecord ∧
      EndRecord.find (View.ofBytes final.output.bytes) = .ok (some (endRecord,
        (View.ofBytes final.output.bytes).size - endRecord.encode.length)) := by
  have alone : rewrites false {} Sample.commented (fun final _ => writes (fun endRecord =>
      endRecord.encode.length ≤ 44 && (List.range 44).all fun place =>
        EndRecord.ofSuffix? (endRecord.encode.drop (place + 1)) = none) final) = true := by
    decide +kernel
  obtain ⟨summary, final, sections, result, -, holds⟩ := exists_of_rewrites alone
  obtain ⟨directory, endRecord, ends, -, found⟩ := written_record_is_found_iff result
  refine ⟨summary, final, directory, endRecord, result, ends, ?_⟩
  refine (found _ (View.shows_ofBytes _)).2.2 ?_
  have holds := ends.of_writes holds
  rw [Bool.and_eq_true, decide_eq_true_eq, List.all_eq_true] at holds
  intro place positive
  rcases Nat.lt_or_ge place 45 with inside | beyond
  · have none_here := of_decide_eq_true (holds.2 (place - 1) (List.mem_range.2 (by omega)))
    rwa [Nat.sub_add_cancel positive] at none_here
  · refine EndRecord.ofSuffix?_of_short ?_
    rw [List.length_drop, Nat.sub_eq_zero_of_le (Nat.le_trans holds.1 (by omega))]
    decide

end Signing
end ApkArchive

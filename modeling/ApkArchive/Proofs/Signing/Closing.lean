import ApkArchive.Proofs.Signing.Sweep
import ApkArchive.Proofs.Zip.Sections

/-!
# How the output is closed

Each time the engine is asked for a signing block it is shown the same entries and the same
directory. Only the end record changes from one time to the next, and of it only the comment,
which gets longer. The record that was shown last is the one that is written, with the place to
which the block has moved the directory.
-/

namespace ApkArchive

namespace EndRecord

/-- `later` is `earlier` with some zero bytes after its comment. -/
def PaddedTo (earlier later : EndRecord) : Prop :=
  ∃ padding, earlier.commentLength.toNat + padding < 65536 ∧
    later = { earlier with
      commentLength := UInt16.ofNat (earlier.commentLength.toNat + padding)
      comment := earlier.comment ++ Bytes.zeros padding }

theorem PaddedTo.refl (record : EndRecord) : record.PaddedTo record := by
  refine ⟨0, record.commentLength.toNat_lt, ?_⟩
  rw [Nat.add_zero, UInt16.ofNat_toNat, Bytes.zeros, List.replicate_zero, List.append_nil]

theorem PaddedTo.trans {first second third : EndRecord} (h : first.PaddedTo second)
    (h' : second.PaddedTo third) : first.PaddedTo third := by
  obtain ⟨n, fits, rfl⟩ := h
  obtain ⟨m, fits', rfl⟩ := h'
  dsimp only at fits'
  rw [UInt16.toNat_ofNat_of_lt' fits] at fits'
  refine ⟨n + m, by omega, ?_⟩
  rw [UInt16.toNat_ofNat_of_lt' fits, List.append_assoc, Bytes.zeros, Bytes.zeros, Bytes.zeros,
    List.replicate_append_replicate, Nat.add_assoc]

theorem PaddedTo.withDirectoryOffset {earlier later : EndRecord} (h : earlier.PaddedTo later) :
    later.withDirectoryOffset earlier.directoryOffset = later := by
  obtain ⟨_, _, rfl⟩ := h
  rfl

/-- A comment that cannot be padded would be too long. -/
theorem mapError_padComment_eq_error {record : EndRecord} {padding : Nat} {error : Error}
    (failed : (record.padComment padding).mapError .fault = .error error) :
    ∃ size, error = .fault (.commentTooLong size) := by
  unfold padComment at failed
  dsimp only at failed
  split at failed
  · cases failed
  · cases failed
    exact ⟨_, rfl⟩

theorem paddedTo_of_padComment {record padded : EndRecord} {padding : Nat}
    (run : record.padComment padding = .ok padded) : record.PaddedTo padded := by
  unfold padComment at run
  dsimp only at run
  split at run
  · next fits =>
    cases run
    exact ⟨padding, fits, rfl⟩
  · cases run

end EndRecord

namespace Signing

open Run

variable {s s' : Session σ} {engine : Engine σ}

/-! ### Asking for a signing block -/

/-- An end record that was shown to the engine, and the answer. -/
abbrev Round := EndRecord × Option BlockRequest

/-- The sections that were shown, and the answer. -/
def Round.asked (entries : ByteArray) (directory : Bytes) (round : Round) :
    Unsigned × Option (Option BlockRequest) :=
  ({ entries, directory, endRecord := round.1 }, some round.2)

/-- The call with which the engine was asked for a signing block. -/
def Round.call (entries : ByteArray) (directory : Bytes) (round : Round) : Call :=
  .signingBlock (round.asked entries directory).1 (round.asked entries directory).2

/-- What was negotiated, from the first end record to the last one. -/
structure Negotiated (first : EndRecord) (rounds : List Round) (last : Round) : Prop where
  closing : rounds.getLast? = some last
  padded : ∀ round ∈ rounds, first.PaddedTo round.1
  increasing : (rounds.map (·.1)).Pairwise EndRecord.PaddedTo

theorem Negotiated.last_padded {first : EndRecord} {rounds : List Round} {last : Round}
    (h : Negotiated first rounds last) : first.PaddedTo last.1 :=
  h.padded last (List.mem_of_getLast? h.closing)

/-- The induction is on the attempts that are left; each one but the last pads the comment. -/
theorem negotiate_eq_ok {multiple offset attempts : Nat} {entries : ByteArray} {directory : Bytes}
    {first : EndRecord} {last : Round}
    (run : negotiate engine multiple entries offset directory attempts first s = .ok last s') :
    ∃ rounds, Negotiated first rounds last ∧
      Extends s s' [] (rounds.map (Round.call entries directory)) ∧
      (offset + last.2.elim 0 BlockRequest.size + directory.length +
        last.1.encode.length) % multiple = 0 := by
  induction attempts generalizing first s with
  | zero => exact absurd run run_throw_ne_ok
  | succ attempts ih =>
    unfold negotiate at run
    obtain ⟨request, asked, ask, run⟩ := run_bind_eq_ok_iff.1 run
    have shown := ask_extends ask
    split at run
    · next fits =>
      obtain ⟨rfl, rfl⟩ := run_pure_eq_ok_iff.1 run
      refine ⟨[(first, request)], ⟨rfl, ?_, List.pairwise_singleton _ _⟩, shown, fits⟩
      intro round mem
      rw [List.mem_singleton.1 mem]
      exact .refl first
    -- The answer does not fit, so the comment grows and the engine is asked again.
    · obtain ⟨_, run⟩ := run_guard_eq_ok run
      obtain ⟨_, noted, note, run⟩ := run_bind_eq_ok_iff.1 run
      obtain ⟨next, mapped, run⟩ := run_ofExcept_eq_ok_iff.1 run
      have step := EndRecord.paddedTo_of_padComment (mapError_eq_ok_iff.1 mapped)
      obtain ⟨rounds, negotiated, shows, fits⟩ := ih run
      refine ⟨(first, request) :: rounds, ⟨?_, ?_, ?_⟩,
        (shown.before_silence (note_extends note)).trans shows, fits⟩
      · rw [List.getLast?_cons, negotiated.closing]
        rfl
      · intro round mem
        rcases List.mem_cons.1 mem with rfl | later
        · exact .refl first
        · exact step.trans (negotiated.padded round later)
      · refine List.pairwise_cons.2 ⟨?_, negotiated.increasing⟩
        intro record mem
        obtain ⟨round, later, rfl⟩ := List.mem_map.1 mem
        exact step.trans (negotiated.padded round later)

/-! ### Writing block, directory and end record -/

/-- What is written before the directory: no answer counts as an empty block. -/
def BlockRequest.orEmpty (answer : Option BlockRequest) : BlockRequest :=
  answer.getD { block := [] }

/-- The bytes of a signing block, padding included. -/
def BlockRequest.bytes (request : BlockRequest) : Bytes :=
  Bytes.zeros request.padding ++ request.block

theorem BlockRequest.length_bytes (request : BlockRequest) :
    request.bytes.length = request.size := by
  rw [bytes, List.length_append, Bytes.length_zeros, size]

/-- The end record of the output: the one that was shown, with the place to which the block moves
the directory. -/
def Unsigned.endRecordWith (shown : Unsigned) (answer : Option BlockRequest) : EndRecord :=
  shown.endRecord.withDirectoryOffset
    (UInt32.ofNat (shown.entries.size + (BlockRequest.orEmpty answer).size))

/-- The output of a run ends in a directory and in the end record for it, which is the one that was
shown last but for the place of the directory. -/
structure Session.EndsIn (final : Session σ) (directory : List DirectoryRecord)
    (endRecord : EndRecord) : Prop where
  shown : ∃ shown answer, final.rounds.getLast? = some (shown, some answer) ∧
    endRecord = shown.endRecordWith answer
  bytes : ∃ front, final.output.bytes = front ++ (Directory.encode directory ++ endRecord.encode) ∧
    endRecord.directoryOffset.toNat = front.length

/-- The end record that was written is found if there is no comment. -/
theorem Session.EndsIn.find_of_no_comment {final : Session σ} {directory : List DirectoryRecord}
    {endRecord : EndRecord} {output : View} (ends : final.EndsIn directory endRecord)
    (shows : output.Shows final.output.bytes) (plain : endRecord.comment = [])
    (consistent : endRecord.isConsistent = true) :
    EndRecord.find output = .ok (some (endRecord, output.size - endRecord.encode.length)) := by
  obtain ⟨front, written, -⟩ := ends.bytes
  rw [written, ← List.append_assoc] at shows
  have size : output.size =
      (front ++ Directory.encode directory).length + endRecord.encode.length :=
    shows.size.trans List.length_append
  rw [EndRecord.find_of_no_comment shows plain consistent, size, Nat.add_sub_cancel]

theorem writeBlock_eq_ok {endRecord moved : EndRecord} {offset : Nat} {request : BlockRequest}
    (run : writeBlock engine endRecord offset request s = .ok moved s') :
    offset + request.size < UInt32.size ∧
      moved = endRecord.withDirectoryOffset (UInt32.ofNat (offset + request.size)) ∧
      Extends s s' request.bytes [.blockWritten] := by
  unfold writeBlock at run
  obtain ⟨_, padded, pad, run⟩ := run_bind_eq_ok_iff.1 run
  obtain ⟨_, filled, fill, run⟩ := run_bind_eq_ok_iff.1 run
  obtain ⟨_, noted, note, run⟩ := run_bind_eq_ok_iff.1 run
  obtain ⟨word, field, run⟩ := run_ofExcept_eq_ok_iff.1 run
  obtain ⟨fits, rfl⟩ := fieldOffset_eq_ok_iff.1 field
  obtain ⟨_, _, ask, run⟩ := run_bind_eq_ok_iff.1 run
  obtain ⟨rfl, rfl⟩ := run_pure_eq_ok_iff.1 run
  have wrote := (emit_extends (Sink.emits_write _) pad).trans
    (emit_extends (Sink.emits_write _) fill)
  have all := (wrote.before_silence (note_extends note)).trans (ask_extends ask)
  rw [List.append_nil] at all
  exact ⟨fits, rfl, all⟩

/-- The milestones of closing an output with the given sections. -/
def closingCalls (entries : ByteArray) (directory : Bytes) (rounds : List Round)
    (answer : Option BlockRequest) : List Call :=
  rounds.map (Round.call entries directory) ++ if answer.isSome then [.blockWritten] else []

/-- An output was closed: after `entries` come the block of the last answer, the directory and the
end record that was shown last. -/
structure Closed (inputEnd : EndRecord) (records : List DirectoryRecord) (entries : Nat)
    (rounds : List Round) (last : Round) : Prop where
  countFits : records.length < 65536
  sizeFits : Directory.size records ≤ View.maxBufferSize
  offsetFits : entries + (BlockRequest.orEmpty last.2).size < UInt32.size
  negotiated : Negotiated (inputEnd.withDirectory (UInt16.ofNat records.length)
    (UInt32.ofNat (Directory.size records)) (UInt32.ofNat entries)) rounds last

/-- The end record that was shown last describes the directory. -/
theorem Closed.last_fields {inputEnd : EndRecord} {records : List DirectoryRecord} {entries : Nat}
    {rounds : List Round} {last : Round} (closed : Closed inputEnd records entries rounds last) :
    last.1.directoryOffset.toNat = entries ∧
      last.1.directorySize.toNat = (Directory.encode records).length ∧
        last.1.diskEntries.toNat = records.length ∧ last.1.totalEntries.toNat = records.length := by
  obtain ⟨padding, _, padded⟩ := closed.negotiated.last_padded
  have count : (UInt16.ofNat records.length).toNat = records.length :=
    UInt16.toNat_ofNat_of_lt' closed.countFits
  have short : Directory.size records < UInt32.size :=
    Nat.lt_of_le_of_lt closed.sizeFits (by decide)
  rw [padded]
  refine ⟨?_, ?_, count, count⟩
  · exact UInt32.toNat_ofNat_of_lt' (Nat.lt_of_le_of_lt (Nat.le_add_right ..) closed.offsetFits)
  · rw [← Directory.size_eq]
    exact UInt32.toNat_ofNat_of_lt' short

/-- The directory is written where the count says. If the count is the position of the output, the
size of the output is a multiple as configured. -/
theorem writeDirectory_eq_ok {config : Config} {inputEnd : EndRecord}
    {records : List DirectoryRecord} {offset blockSize : Nat} (counts : offset = s.output.position)
    (run : writeDirectory engine config inputEnd records offset s = .ok blockSize s') :
    ∃ rounds last, Closed inputEnd records offset rounds last ∧
      Extends s s'
        ((BlockRequest.orEmpty last.2).bytes ++ (Directory.encode records ++
          (last.1.withDirectoryOffset (UInt32.ofNat (offset +
            (BlockRequest.orEmpty last.2).size))).encode))
        (closingCalls s.output.contents (Directory.encode records) rounds last.2) ∧
      s'.output.bytes.length % max 1 (config.sizeMultiple.getD 1) = 0 ∧
      blockSize = (BlockRequest.orEmpty last.2).size := by
  unfold writeDirectory at run
  dsimp only at run
  obtain ⟨sizeFits, run⟩ := run_guard_eq_ok run
  obtain ⟨countFits, run⟩ := run_guard_eq_ok run
  obtain ⟨word, field, run⟩ := run_ofExcept_eq_ok_iff.1 run
  obtain ⟨offsetFits, rfl⟩ := fieldOffset_eq_ok_iff.1 field
  obtain ⟨_, _, got, run⟩ := run_bind_eq_ok_iff.1 run
  cases got
  obtain ⟨⟨last, request⟩, asked, ask, run⟩ := run_bind_eq_ok_iff.1 run
  obtain ⟨rounds, negotiated, shown, aligned⟩ := negotiate_eq_ok ask
  -- Without a block, the directory stays where the end record that was shown puts it.
  have placed : ∃ moved mid,
      offset + (BlockRequest.orEmpty request).size < UInt32.size ∧
      moved = last.withDirectoryOffset
        (UInt32.ofNat (offset + (BlockRequest.orEmpty request).size)) ∧
      Extends asked mid (BlockRequest.orEmpty request).bytes
        (if request.isSome then [.blockWritten] else []) ∧
      (do
        emit ((View.ofBytes (Directory.encode records)).feed 0 (Directory.size records))
        emit (Sink.write moved.encode)
        pure (request.elim 0 BlockRequest.size)) mid = .ok blockSize s' := by
    cases request with
    | none =>
      exact ⟨last, asked, offsetFits, negotiated.last_padded.withDirectoryOffset.symm,
        Extends.refl asked, run⟩
    | some request =>
      obtain ⟨moved, mid, write, run⟩ := run_bind_eq_ok_iff.1 run
      obtain ⟨fits, moves, wrote⟩ := writeBlock_eq_ok write
      exact ⟨moved, mid, fits, moves, wrote, run⟩
  obtain ⟨_, mid, fits, rfl, block, run⟩ := placed
  obtain ⟨_, fed, feed, run⟩ := run_bind_eq_ok_iff.1 run
  obtain ⟨_, ended, write, run⟩ := run_bind_eq_ok_iff.1 run
  obtain ⟨rfl, rfl⟩ := run_pure_eq_ok_iff.1 run
  have directory := emit_extends (View.emits_feed _ _ _) feed
  have whole := (View.shows_ofBytes (Directory.encode records)).contents
  rw [(View.shows_ofBytes _).size, ← Directory.size_eq] at whole
  rw [whole] at directory
  refine ⟨rounds, (last, request), ⟨Nat.lt_of_not_le countFits, Nat.le_of_not_lt sizeFits, fits,
    negotiated⟩, ?_⟩
  have all := (shown.trans block).trans
    (directory.trans (emit_extends (Sink.emits_write _) write))
  rw [List.nil_append, List.append_nil, List.append_nil] at all
  have blockSize : request.elim 0 BlockRequest.size = (BlockRequest.orEmpty request).size := by
    cases request <;> rfl
  refine ⟨all, ?_, blockSize⟩
  -- The new place of the directory does not change the size of the end record.
  have length : ended.output.bytes.length = offset + (BlockRequest.orEmpty request).size +
      (Directory.encode records).length + last.encode.length := by
    rw [counts, Sink.position_eq]
    simp only [all.length_output, List.length_append, BlockRequest.length_bytes,
      EndRecord.length_encode, EndRecord.withDirectoryOffset]
    omega
  rw [length, ← blockSize]
  exact aligned

end Signing
end ApkArchive

import ApkArchive.Proofs.Bytes.Field
import ApkArchive.Proofs.Zip.EndRecord
import Mathlib.Order.Bounds.Defs

/-!
# The last place that marks an end

A place marks the end of an archive if the signature of an end record stands there and the length
of the comment says exactly how many bytes follow the record. This can be told of each place by
itself, so it does not depend on how the archive is searched: the record that is found is the one
at the greatest place that marks the end, and the bytes that are not looked at make no difference.

    find apk = ok (some (record, offset)) ↔
      IsGreatest (places that mark the end) offset ∧ record.encode = bytes.drop offset
-/

namespace ApkArchive.EndRecord

/-- Where in a record the length of the comment stands. -/
def commentLengthOffset : Nat := 20

/-- The place has the signature of an end record, and a comment that starts after the record would
reach exactly to the end. -/
structure MarksEnd (bytes : Bytes) (place : Nat) : Prop where
  inside : place + fixedSize ≤ bytes.length
  signed : bytes.field place 4 = signature.toNat
  reaches : bytes.field (place + commentLengthOffset) 2 = bytes.length - place - fixedSize

instance (bytes : Bytes) (place : Nat) : Decidable (MarksEnd bytes place) :=
  decidable_of_iff (place + fixedSize ≤ bytes.length ∧ bytes.field place 4 = signature.toNat ∧
      bytes.field (place + commentLengthOffset) 2 = bytes.length - place - fixedSize)
    ⟨fun ⟨inside, signed, reaches⟩ => ⟨inside, signed, reaches⟩,
      fun ⟨inside, signed, reaches⟩ => ⟨inside, signed, reaches⟩⟩

/-! ### One place -/

open Reader in
theorem takes_readFields : Takes 18 readFields :=
  takes_word16.bind fun _ => takes_word16.bind fun _ => takes_word16.bind fun _ =>
    takes_word16.bind fun _ => takes_word32.bind fun _ => takes_word32.bind fun _ =>
    takes_word16.bind fun _ => takes_get.bind fun _ => takes_pure _

/-- Any 22 bytes are laid out like a record, whatever signature they carry. -/
theorem exists_layout {bytes : Bytes} (enough : fixedSize ≤ bytes.length) :
    ∃ sign record, bytes = Bytes.word32 sign ++ encodeFields record := by
  simp only [fixedSize] at enough
  obtain ⟨sign, rest, first, size⟩ := Reader.takes_word32 bytes (by omega)
  obtain ⟨record, comment, second, -⟩ := takes_readFields rest (by omega)
  refine ⟨sign, record, ?_⟩
  rw [Reader.word32_run_eq_some_iff.1 first, (run_readFields_eq_some_iff.1 second).1]

theorem field_layout (sign : UInt32) (record : EndRecord) :
    (Bytes.word32 sign ++ record.encodeFields).field 0 4 = sign.toNat ∧
      (Bytes.word32 sign ++ record.encodeFields).field commentLengthOffset 2 =
        record.commentLength.toNat := by
  simp [encodeFields, commentLengthOffset]

/-- A place marks the end exactly if what follows it is a consistent record. -/
theorem marksEnd_iff {bytes : Bytes} {place : Nat} :
    MarksEnd bytes place ↔ ∃ record, ofSuffix? (bytes.drop place) = some record := by
  have rest : (bytes.drop place).length = bytes.length - place := List.length_drop
  constructor
  · intro marks
    have enough : fixedSize ≤ (bytes.drop place).length := by
      have inside := marks.inside
      omega
    obtain ⟨sign, record, split⟩ := exists_layout enough
    obtain ⟨signed, reaches⟩ := field_layout sign record
    rw [← split, Bytes.field_drop] at signed reaches
    obtain rfl : sign = signature := UInt32.toNat_inj.1 (signed.symm.trans marks.signed)
    have length : bytes.length - place = fixedSize + record.comment.length := by
      rw [← rest, split]
      exact record.length_encode
    refine ⟨record, ofSuffix?_eq_some_iff.2 ⟨split, decide_eq_true ?_⟩⟩
    rw [← reaches, marks.reaches, length, Nat.add_sub_cancel_left]
  · rintro ⟨record, here⟩
    have enough := (length_of_ofSuffix? here).1
    obtain ⟨split, consistent⟩ := ofSuffix?_eq_some_iff.1 here
    have same : record.commentLength.toNat = record.comment.length := of_decide_eq_true consistent
    have length : bytes.length - place = fixedSize + record.comment.length := by
      rw [← rest, split, length_encode]
    obtain ⟨signed, reaches⟩ := field_layout signature record
    rw [← encode, ← split, Bytes.field_drop] at signed reaches
    refine ⟨?_, signed, ?_⟩
    · simp only [fixedSize] at enough ⊢
      omega
    · rw [reaches, same, length, Nat.add_sub_cancel_left]

theorem not_marksEnd_iff {bytes : Bytes} {place : Nat} :
    ¬ MarksEnd bytes place ↔ ofSuffix? (bytes.drop place) = none := by
  rw [marksEnd_iff, Option.eq_none_iff_forall_ne_some, not_exists]

/-! ### The last place -/

/-- The last record is the one at the greatest place that marks the end. -/
theorem isLast_iff {bytes : Bytes} {record : EndRecord} {offset : Nat} :
    IsLast bytes record offset ↔
      IsGreatest {place | MarksEnd bytes place} offset ∧ record.encode = bytes.drop offset := by
  constructor
  · intro last
    refine ⟨⟨marksEnd_iff.2 ⟨record, last.here⟩, ?_⟩, last.encode_eq⟩
    intro place marks
    apply Nat.le_of_not_lt
    intro later
    exact not_marksEnd_iff.2 (last.later place later) marks
  · rintro ⟨⟨marks, greatest⟩, whole⟩
    obtain ⟨other, here⟩ := marksEnd_iff.1 marks
    obtain ⟨split, consistent⟩ := ofSuffix?_eq_some_iff.1 here
    -- The bytes from the place on determine the record.
    have same : Except.ok other = Except.ok record :=
      (parse_eq_ok_iff.2 split).symm.trans (parse_eq_ok_iff.2 whole.symm)
    cases same
    refine ⟨here, ?_⟩
    intro place later
    rw [← not_marksEnd_iff]
    intro marks
    exact Nat.not_le.2 later (greatest marks)

variable {apk : View} {bytes : Bytes}

/-- The two searches come to what one search of the whole archive comes to. -/
theorem find_eq_lastConsistent (shows : apk.Shows bytes) :
    find apk = .ok (lastConsistent none 0 bytes) := by
  by_cases somewhere : ∃ place, MarksEnd bytes place
  · obtain ⟨place, marks⟩ := somewhere
    obtain ⟨record, here⟩ := marksEnd_iff.1 marks
    obtain ⟨last, offset, isLast, -⟩ := exists_isLast here
    rw [find_of_isLast shows isLast, lastConsistent_of_isLast isLast, Nat.zero_add]
  · have nowhere (place : Nat) : ofSuffix? (bytes.drop place) = none :=
      not_marksEnd_iff.1 fun marks => somewhere ⟨place, marks⟩
    rw [find_of_none shows nowhere, lastConsistent_of_none nowhere]

/-- A record is found in an archive that can be read exactly if some place marks the end. It is the
record at the greatest such place, with all bytes from there on. The searches of the last 22 and
of the last 65557 bytes come to what a search of all bytes comes to, however long the archive is. -/
theorem found_iff_greatest (shows : apk.Shows bytes) :
    ((∃ record offset, find apk = .ok (some (record, offset))) ↔ ∃ place, MarksEnd bytes place) ∧
      (∀ record offset, find apk = .ok (some (record, offset)) ↔
        IsGreatest {place | MarksEnd bytes place} offset ∧ record.encode = bytes.drop offset) ∧
      find apk = .ok (lastConsistent none 0 bytes) := by
  refine ⟨?_, ?_, find_eq_lastConsistent shows⟩
  · constructor
    · rintro ⟨record, offset, found⟩
      exact ⟨offset, marksEnd_iff.2 ⟨record, ((find_eq_ok_some_iff shows).1 found).here⟩⟩
    · rintro ⟨place, marks⟩
      obtain ⟨record, here⟩ := marksEnd_iff.1 marks
      obtain ⟨last, offset, isLast, -⟩ := exists_isLast here
      exact ⟨last, offset, find_of_isLast shows isLast⟩
  · intro record offset
    rw [find_eq_ok_some_iff shows, isLast_iff]

/-- Looks like a record without a comment, but its comment would have one byte. -/
def sampleMisfit : EndRecord where
  diskNumber := 0
  directoryDisk := 0
  diskEntries := 0
  totalEntries := 0
  directorySize := 0
  directoryOffset := 1
  commentLength := 1
  comment := []

/-- A record with a comment that looks like a record. -/
def sampleCommented : EndRecord :=
  { sampleMisfit with commentLength := 22, comment := sampleMisfit.encode }

/-- The signature in the comment comes later, but one byte is missing after it. -/
theorem misfit_in_comment_is_passed_over :
    let archive := 7 :: sampleCommented.encode
    (View.ofBytes archive).Shows archive ∧ Bytes.field archive 23 4 = signature.toNat ∧
      find (View.ofBytes archive) = .ok (some (sampleCommented, 1)) := by
  intro archive
  have shows := View.shows_ofBytes archive
  obtain ⟨-, found, -⟩ := found_iff_greatest shows
  refine ⟨shows, by decide, (found _ _).2 ⟨⟨?_, ?_⟩, rfl⟩⟩
  · show MarksEnd archive 1
    decide
  · intro place marks
    have small : place < 24 := by
      have inside : place + 22 ≤ 45 := marks.inside
      omega
    have all : ∀ place < 24, MarksEnd archive place → place ≤ 1 := by decide
    exact all place small marks

end ApkArchive.EndRecord

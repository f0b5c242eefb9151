import ApkArchive.Proofs.Zip.LastEndRecord

/-!
# Edits of an end record

The end record of an archive is edited until it fits the archive that is written: it gets another
directory, its directory moves, and zero bytes are put after its comment. On its bytes an edit
writes over some fields at their places, and the fields overlap with what other edits write. Still
the record is well-formed after any edits, and it says what the edits said last:

    bytes ──parse──▶ record
      │                │
    rewrite           edit
      ▼                ▼
    bytes ◀─encode── record

Only a padding can fail, which it does exactly if the comment would be longer than its length field
can say, and then nothing is changed.
-/

namespace ApkArchive

namespace Bytes

/-- The bytes with others written over them at an offset. -/
def overwrite (bytes : Bytes) (offset : Nat) (patch : Bytes) : Bytes :=
  bytes.take offset ++ (patch ++ bytes.drop (offset + patch.length))

theorem overwrite_front {old patch : Bytes} (same : old.length = patch.length) (rest : Bytes) :
    overwrite (old ++ rest) 0 patch = patch ++ rest := by
  rw [overwrite, List.take_zero, List.nil_append, Nat.zero_add, ← same, List.drop_left]

theorem overwrite_append_right (front rest patch : Bytes) (offset : Nat) :
    overwrite (front ++ rest) (front.length + offset) patch =
      front ++ rest.overwrite offset patch := by
  rw [overwrite, overwrite, List.take_length_add_append, Nat.add_assoc, List.drop_length_add_append,
    List.append_assoc]

@[simp] theorem overwrite_word16 (old new : UInt16) (rest : Bytes) :
    overwrite (word16 old ++ rest) 0 (word16 new) = word16 new ++ rest :=
  overwrite_front (by simp only [length_word16]) rest

@[simp] theorem overwrite_word32 (old new : UInt32) (rest : Bytes) :
    overwrite (word32 old ++ rest) 0 (word32 new) = word32 new ++ rest :=
  overwrite_front (by simp only [length_word32]) rest

@[simp] theorem overwrite_skip_word16 (x : UInt16) (rest patch : Bytes) (offset : Nat) :
    overwrite (word16 x ++ rest) (offset + 2) patch = word16 x ++ rest.overwrite offset patch := by
  rw [Nat.add_comm, ← length_word16 x, overwrite_append_right]

@[simp] theorem overwrite_skip_word32 (x : UInt32) (rest patch : Bytes) (offset : Nat) :
    overwrite (word32 x ++ rest) (offset + 4) patch = word32 x ++ rest.overwrite offset patch := by
  rw [Nat.add_comm, ← length_word32 x, overwrite_append_right]

end Bytes

namespace EndRecord

/-- The bytes begin with the signature of an end record, and they end where its comment does. -/
structure WellFormed (bytes : Bytes) : Prop where
  signed : bytes.field 0 4 = signature.toNat
  size : bytes.length = fixedSize + bytes.field commentLengthOffset 2

theorem wellFormed_iff {bytes : Bytes} :
    WellFormed bytes ↔
      ∃ record : EndRecord, bytes = record.encode ∧ record.isConsistent = true := by
  have marks : WellFormed bytes ↔ MarksEnd bytes 0 := by
    constructor
    · rintro ⟨signed, size⟩
      exact ⟨by omega, signed, by rw [Nat.zero_add, size]; omega⟩
    · rintro ⟨inside, signed, reaches⟩
      rw [Nat.zero_add] at inside reaches
      exact ⟨signed, by omega⟩
  simp only [marks, marksEnd_iff, List.drop_zero, ofSuffix?_eq_some_iff]

/-! ### Edits -/

/-- A change to an end record. -/
inductive Edit
  /-- There is another directory. -/
  | directory (count : UInt16) (size offset : UInt32)
  /-- The directory has been moved. -/
  | directoryOffset (offset : UInt32)
  /-- Zero bytes are put after the comment. -/
  | padding (extra : UInt32)
  deriving DecidableEq, Repr

namespace Edit

/-- What the edit makes of a record. -/
def apply (record : EndRecord) : Edit → Except Fault EndRecord
  | directory count size offset => .ok (record.withDirectory count size offset)
  | directoryOffset offset => .ok (record.withDirectoryOffset offset)
  | padding extra => record.padComment extra.toNat

/-- What the edit makes of the bytes of a record. The record does not have to be parsed for that,
as its fields have fixed places. -/
def rewrite (bytes : Bytes) : Edit → Except Fault Bytes
  | directory count size offset =>
    .ok <| bytes
      |>.overwrite 8 (Bytes.word16 count)
      |>.overwrite 10 (Bytes.word16 count)
      |>.overwrite 12 (Bytes.word32 size)
      |>.overwrite 16 (Bytes.word32 offset)
  | directoryOffset offset => .ok (bytes.overwrite 16 (Bytes.word32 offset))
  | padding extra =>
    let size := bytes.field commentLengthOffset 2 + extra.toNat
    if size < 65536 then
      .ok <| (bytes ++ Bytes.zeros extra.toNat).overwrite commentLengthOffset
        (Bytes.word16 (UInt16.ofNat size))
    else .error (.commentTooLong size)

/-- The count that the edit sets. -/
def count? : Edit → Option UInt16
  | directory count _ _ => some count
  | _ => none

/-- The size of the directory that the edit sets. -/
def size? : Edit → Option UInt32
  | directory _ size _ => some size
  | _ => none

/-- The offset of the directory that the edit sets. -/
def offset? : Edit → Option UInt32
  | directory _ _ offset => some offset
  | directoryOffset offset => some offset
  | padding _ => none

/-- What the edit puts after the comment. -/
def suffix : Edit → Bytes
  | padding extra => Bytes.zeros extra.toNat
  | _ => []

/-- The last one of the values that some edits set. -/
def latest? (value? : Edit → Option α) (edits : List Edit) : Option α :=
  (edits.filterMap value?).getLast?

end Edit

/-- The record after an edit; an edit that fails changes nothing. -/
def edit (record : EndRecord) (edit : Edit) : EndRecord :=
  (edit.apply record).toOption.getD record

/-- The bytes after an edit; an edit that fails changes nothing. -/
def editBytes (bytes : Bytes) (edit : Edit) : Bytes := (edit.rewrite bytes).toOption.getD bytes

/-- Those of some edits that do not fail, if they are made one after the other. -/
def successes (record : EndRecord) : List Edit → List Edit
  | [] => []
  | edit :: rest =>
    match edit.apply record with
    | .ok edited => edit :: edited.successes rest
    | .error _ => record.successes rest

/-! ### One edit -/

/-- Writing over the bytes of a record and changing the record come to the same. -/
theorem rewrite_encode (record : EndRecord) (edit : Edit) :
    edit.rewrite record.encode = (edit.apply record).map encode := by
  cases edit with
  | directory count size offset =>
    simp [Edit.rewrite, Edit.apply, Except.map, encode, encodeFields, withDirectory]
  | directoryOffset offset =>
    simp [Edit.rewrite, Edit.apply, Except.map, encode, encodeFields, withDirectoryOffset]
  | padding extra =>
    have length : record.encode.field commentLengthOffset 2 = record.commentLength.toNat :=
      (field_layout signature record).2
    simp only [Edit.rewrite, Edit.apply, padComment, length]
    split
    · simp [Except.map, encode, encodeFields, commentLengthOffset]
    · rfl

theorem editBytes_encode (record : EndRecord) (edit : Edit) :
    editBytes record.encode edit = (record.edit edit).encode := by
  rw [editBytes, rewrite_encode, EndRecord.edit]
  cases edit.apply record <;> rfl

theorem edit_padding (record : EndRecord) (extra : UInt32) :
    record.edit (.padding extra) =
      if record.commentLength.toNat + extra.toNat < 65536 then
        { record with
          commentLength := UInt16.ofNat (record.commentLength.toNat + extra.toNat)
          comment := record.comment ++ Bytes.zeros extra.toNat }
      else record := by
  simp only [edit, Edit.apply, padComment]
  split <;> rfl

theorem isConsistent_edit {record : EndRecord} (consistent : record.isConsistent = true)
    (edit : Edit) : (record.edit edit).isConsistent = true := by
  cases edit with
  | directory => exact consistent
  | directoryOffset => exact consistent
  | padding extra =>
    rw [edit_padding]
    split
    · next fits =>
      have same : record.commentLength.toNat = record.comment.length := of_decide_eq_true consistent
      refine decide_eq_true ?_
      rw [UInt16.toNat_ofNat_of_lt' fits, List.length_append, Bytes.length_zeros, same]
    · exact consistent

/-- Only a padding can fail, and it fails exactly if the comment would get too long. -/
theorem apply_eq_error_iff {record : EndRecord} (consistent : record.isConsistent = true)
    {edit : Edit} {fault : Fault} :
    edit.apply record = .error fault ↔
      ∃ extra, edit = .padding extra ∧ 65535 < record.comment.length + extra.toNat ∧
        fault = .commentTooLong (record.comment.length + extra.toNat) := by
  have same : record.commentLength.toNat = record.comment.length := of_decide_eq_true consistent
  cases edit with
  | directory => simp [Edit.apply]
  | directoryOffset => simp [Edit.apply]
  | padding extra =>
    simp only [Edit.apply, padComment, same]
    split
    · next fits =>
      constructor
      · intro failed; cases failed
      · rintro ⟨_, ⟨⟩, long, _⟩; omega
    · next long =>
      constructor
      · rintro ⟨⟩
        exact ⟨extra, rfl, by omega, rfl⟩
      · rintro ⟨_, ⟨⟩, _, rfl⟩
        rfl

/-! ### Edits in a row -/

theorem foldl_editBytes (record : EndRecord) (edits : List Edit) :
    edits.foldl editBytes record.encode = (edits.foldl edit record).encode := by
  induction edits generalizing record with
  | nil => rfl
  | cons first rest ih => rw [List.foldl_cons, List.foldl_cons, editBytes_encode, ih]

theorem isConsistent_foldl_edit {record : EndRecord} (consistent : record.isConsistent = true)
    (edits : List Edit) : (edits.foldl edit record).isConsistent = true := by
  induction edits generalizing record with
  | nil => exact consistent
  | cons first rest ih => exact ih (isConsistent_edit consistent first)

/-- A field that each edit sets or leaves alone is as the last edit that sets it says. -/
theorem field_foldl_edit {field : EndRecord → α} {value? : Edit → Option α}
    (directory : ∀ record count size offset, field (record.withDirectory count size offset) =
      (value? (.directory count size offset)).getD (field record))
    (moved : ∀ record offset, field (record.withDirectoryOffset offset) =
      (value? (.directoryOffset offset)).getD (field record))
    (padded : ∀ (record : EndRecord) length comment,
      field { record with commentLength := length, comment } = field record)
    (unset : ∀ extra, value? (.padding extra) = none)
    (record : EndRecord) (edits : List Edit) :
    field (edits.foldl edit record) = (Edit.latest? value? edits).getD (field record) := by
  induction edits generalizing record with
  | nil => rfl
  | cons first rest ih =>
    have step : field (record.edit first) = (value? first).getD (field record) := by
      cases first with
      | directory count size offset => exact directory record count size offset
      | directoryOffset offset => exact moved record offset
      | padding extra =>
        rw [edit_padding, unset, Option.getD_none]
        split
        · exact padded record _ _
        · rfl
    rw [List.foldl_cons, ih, step]
    cases set : value? first with
    | none => rw [Edit.latest?, Edit.latest?, List.filterMap_cons_none set, Option.getD_none]
    | some value =>
      rw [Edit.latest?, Edit.latest?, List.filterMap_cons_some set, List.getLast?_cons]
      rfl

/-- A field that no edit sets stays as it was. -/
theorem untouched_foldl_edit {α : Type} {field : EndRecord → α}
    (directory : ∀ record count size offset,
      field (record.withDirectory count size offset) = field record)
    (moved : ∀ record offset, field (record.withDirectoryOffset offset) = field record)
    (padded : ∀ (record : EndRecord) length comment,
      field { record with commentLength := length, comment } = field record)
    (record : EndRecord) (edits : List Edit) : field (edits.foldl edit record) = field record := by
  have last : field (edits.foldl edit record) =
      (Edit.latest? (fun _ => none) edits).getD (field record) :=
    field_foldl_edit directory moved padded (fun _ => rfl) record edits
  have unset : Edit.latest? (fun _ => (none : Option α)) edits = none := by
    rw [Edit.latest?, List.filterMap_eq_nil_iff.2 fun _ _ => rfl]
    rfl
  rwa [unset] at last

theorem comment_foldl_edit (record : EndRecord) (edits : List Edit) :
    (edits.foldl edit record).comment =
      record.comment ++ (record.successes edits).flatMap Edit.suffix := by
  induction edits generalizing record with
  | nil => exact (List.append_nil _).symm
  | cons first rest ih =>
    rw [List.foldl_cons, ih, edit, successes]
    cases done : first.apply record with
    | error fault => rfl
    | ok edited =>
      have grown : edited.comment = record.comment ++ first.suffix := by
        cases first with
        | directory => cases done; exact (List.append_nil _).symm
        | directoryOffset => cases done; exact (List.append_nil _).symm
        | padding extra =>
          simp only [Edit.apply, padComment] at done
          split at done
          · cases done; rfl
          · cases done
      rw [Except.toOption, Option.getD_some, grown, List.flatMap_cons, List.append_assoc]

/-- What is known of a record after some edits. -/
structure EditedBy (edits : List Edit) (original record : EndRecord) : Prop where
  wellFormed : WellFormed record.encode
  parsed : parse record.encode = .ok record
  disks : record.diskNumber = original.diskNumber ∧ record.directoryDisk = original.directoryDisk
  counts : record.diskEntries = (Edit.latest? Edit.count? edits).getD original.diskEntries ∧
    record.totalEntries = (Edit.latest? Edit.count? edits).getD original.totalEntries
  size : record.directorySize = (Edit.latest? Edit.size? edits).getD original.directorySize
  offset : record.directoryOffset = (Edit.latest? Edit.offset? edits).getD original.directoryOffset
  comment : record.comment = original.comment ++ (original.successes edits).flatMap Edit.suffix
  commentLength : record.commentLength.toNat = record.comment.length
  /-- The next edit fails exactly if it would bring the comment above 65535 bytes. -/
  fails : ∀ (next : Edit) fault, next.apply record = .error fault ↔
    ∃ extra, next = .padding extra ∧ 65535 < record.comment.length + extra.toNat ∧
      fault = .commentTooLong (record.comment.length + extra.toNat)
  unchanged : ∀ (next : Edit) fault, next.apply record = .error fault → record.edit next = record
  /-- The next edit can be made on the bytes as well. -/
  rewritten : ∀ next : Edit, next.rewrite record.encode = (next.apply record).map encode

theorem editedBy_foldl {original : EndRecord} (consistent : original.isConsistent = true)
    (edits : List Edit) : EditedBy edits original (edits.foldl edit original) := by
  have kept := isConsistent_foldl_edit consistent edits
  exact {
    wellFormed := wellFormed_iff.2 ⟨_, rfl, kept⟩
    parsed := parse_eq_ok_iff.2 rfl
    disks :=
      ⟨untouched_foldl_edit (fun _ _ _ _ => rfl) (fun _ _ => rfl) (fun _ _ _ => rfl) original edits,
      untouched_foldl_edit (fun _ _ _ _ => rfl) (fun _ _ => rfl) (fun _ _ _ => rfl) original edits⟩
    counts :=
      ⟨field_foldl_edit (fun _ _ _ _ => rfl) (fun _ _ => rfl) (fun _ _ _ => rfl) (fun _ => rfl)
        original edits,
      field_foldl_edit (fun _ _ _ _ => rfl) (fun _ _ => rfl) (fun _ _ _ => rfl) (fun _ => rfl)
        original edits⟩
    size := field_foldl_edit (fun _ _ _ _ => rfl) (fun _ _ => rfl) (fun _ _ _ => rfl)
      (fun _ => rfl) original edits
    offset := field_foldl_edit (fun _ _ _ _ => rfl) (fun _ _ => rfl) (fun _ _ _ => rfl)
      (fun _ => rfl) original edits
    comment := comment_foldl_edit original edits
    commentLength := of_decide_eq_true kept
    fails := fun _ _ => apply_eq_error_iff kept
    unchanged := fun next fault failed => by rw [edit, failed]; rfl
    rewritten := rewrite_encode _ }

/-- Whatever edits are made on the bytes of a well-formed record, and however many, they come to the
same as the edits of the record that is parsed from the bytes. The record stays well-formed, it says
what the edits said last, and its comment has grown by what the paddings that succeeded have added.
A padding fails exactly if the comment would get too long. -/
theorem edits_keep_form {bytes : Bytes} (wellFormed : WellFormed bytes) (edits : List Edit) :
    ∃ original, parse bytes = .ok original ∧
      edits.foldl editBytes bytes = (edits.foldl edit original).encode ∧
      EditedBy edits original (edits.foldl edit original) := by
  obtain ⟨original, rfl, consistent⟩ := wellFormed_iff.1 wellFormed
  exact ⟨original, parse_eq_ok_iff.2 rfl, foldl_editBytes original edits,
    editedBy_foldl consistent edits⟩

/-- The second record of a set of two disks, with a comment of one byte. -/
def sampleDisk : EndRecord where
  diskNumber := 1
  directoryDisk := 1
  diskEntries := 3
  totalEntries := 5
  directorySize := 150
  directoryOffset := 1000
  commentLength := 1
  comment := [0x78]

/-- Another directory, a padding, one that is too long by a single byte, and a move. -/
theorem edited_disk_keeps_form :
    let edits := [.directory 2 99 4096, .padding 3, .padding 65532, .directoryOffset 0x01020304]
    WellFormed sampleDisk.encode ∧
      edits.foldl editBytes sampleDisk.encode =
        [0x50, 0x4b, 5, 6, 1, 0, 1, 0, 2, 0, 2, 0, 99, 0, 0, 0, 4, 3, 2, 1, 4, 0, 0x78, 0, 0, 0] ∧
      ∃ original, parse sampleDisk.encode = .ok original ∧
        original.successes edits =
          [.directory 2 99 4096, .padding 3, .directoryOffset 0x01020304] ∧
        EditedBy edits original (edits.foldl edit original) := by
  intro edits
  have wellFormed : WellFormed sampleDisk.encode := ⟨by decide, by decide⟩
  obtain ⟨original, parsed, -, edited⟩ := edits_keep_form wellFormed edits
  cases (parse_eq_ok_iff.2 rfl).symm.trans parsed
  exact ⟨wellFormed, by decide, sampleDisk, parsed, by decide, edited⟩

end EndRecord
end ApkArchive

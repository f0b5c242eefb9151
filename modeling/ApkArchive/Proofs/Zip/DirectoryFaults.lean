import ApkArchive.Proofs.Bytes.Field
import ApkArchive.Proofs.Zip.Directory

/-!
# What is wrong with a directory

A byte string is a directory record if it carries the signature and is as long as the lengths in
it say. A directory is parsed exactly if it is a sequence of such strings, as many as are counted,
whose names are distinct. Otherwise the first one of them that is malformed or repeats a name is
blamed, or what follows the last one:

    parse count offset bytes = error e ↔ Refused count offset bytes e

Names are compared as text, so two names may be the same although their bytes differ.
-/

namespace ApkArchive

namespace DirectoryRecord

/-! ### Records as byte strings -/

/-- How long the record is with which a buffer begins, going by the lengths in it. -/
def declaredSize (bytes : Bytes) : Nat :=
  fixedSize + bytes.field 28 2 + bytes.field 30 2 + bytes.field 32 2

/-- The name in the record with which a buffer begins. -/
def nameIn (bytes : Bytes) : String :=
  LossyUtf8.decode ((bytes.drop fixedSize).take (bytes.field 28 2))

/-- A byte string that is a directory record: header, name, extra field and comment are all there,
and nothing else. -/
structure IsRecord (bytes : Bytes) : Prop where
  signed : bytes.field 0 4 = signature.toNat
  whole : bytes.length = declaredSize bytes

/-- A buffer does not begin with a record, and why. -/
inductive Malformed (bytes : Bytes) : Fault → Prop
  | short (short : bytes.length < fixedSize) :
    Malformed bytes (.recordHeaderTooShort bytes.length)
  | unsigned (header : fixedSize ≤ bytes.length) (other : bytes.field 0 4 ≠ signature.toNat) :
    Malformed bytes (.notDirectoryRecord (UInt32.ofNat (bytes.field 0 4)))
  | cut (header : fixedSize ≤ bytes.length) (signed : bytes.field 0 4 = signature.toNat)
    (cut : bytes.length < declaredSize bytes) :
    Malformed bytes (.recordTooShort (declaredSize bytes) bytes.length)

namespace Header

open Reader in
theorem takes_read : Takes 42 read :=
  takes_word16.bind fun _ => takes_word16.bind fun _ => takes_word16.bind fun _ =>
    takes_word16.bind fun _ => takes_word16.bind fun _ => takes_word16.bind fun _ =>
    takes_word32.bind fun _ => takes_word32.bind fun _ => takes_word32.bind fun _ =>
    takes_word16.bind fun _ => takes_word16.bind fun _ => takes_word16.bind fun _ =>
    takes_word16.bind fun _ => takes_word16.bind fun _ => takes_word32.bind fun _ =>
    takes_word32.bind fun _ => takes_pure _

open Reader in
theorem takes_readHeader : Takes fixedSize readHeader :=
  takes_word32.bind fun _ => takes_read.bind fun _ => takes_pure _

theorem length_encode (header : Header) : header.encode.length = 42 := by
  simp [encode]

/-- Any 46 bytes are a signature and a header. -/
theorem exists_encode {bytes : Bytes} (enough : fixedSize ≤ bytes.length) :
    ∃ sign header rest, bytes = Bytes.word32 sign ++ (encode header ++ rest) := by
  obtain ⟨⟨sign, header⟩, rest, read, -⟩ := takes_readHeader bytes enough
  exact ⟨sign, header, rest, run_readHeader_eq_some_iff.1 read⟩

theorem field_sign (sign : UInt32) (header : Header) (rest : Bytes) :
    (Bytes.word32 sign ++ (header.encode ++ rest)).field 0 4 = sign.toNat := by
  simp

theorem length_append_encode (sign : UInt32) (header : Header) (rest : Bytes) :
    (Bytes.word32 sign ++ (header.encode ++ rest)).length = fixedSize + rest.length := by
  simp only [List.length_append, Bytes.length_word32, length_encode, fixedSize]
  omega

/-- The size of a record is in its header. -/
theorem declaredSize_eq (sign : UInt32) (header : Header) (rest : Bytes) :
    declaredSize (Bytes.word32 sign ++ (header.encode ++ rest)) = header.recordSize := by
  simp [declaredSize, recordSize, encode]

theorem nameIn_eq (sign : UInt32) (header : Header) (rest : Bytes) :
    nameIn (Bytes.word32 sign ++ (header.encode ++ rest)) =
      LossyUtf8.decode (rest.take header.nameSize.toNat) := by
  have size :
      (Bytes.word32 sign ++ (header.encode ++ rest)).field 28 2 = header.nameSize.toNat := by
    simp [encode]
  have front : (Bytes.word32 sign ++ header.encode).length = fixedSize := by
    rw [List.length_append, Bytes.length_word32, length_encode, fixedSize]
  rw [nameIn, size, ← List.append_assoc, List.drop_left' front]

/-- A header cannot be completed exactly if fewer bytes follow than it announces. -/
theorem complete?_eq_none_iff {header : Header} {bytes : Bytes} :
    header.complete? bytes = none ↔ fixedSize + bytes.length < header.recordSize := by
  unfold complete? recordSize
  split
  · next name =>
    rw [Bytes.split?_eq_none_iff] at name
    exact iff_of_true rfl (by omega)
  next rest name =>
  obtain ⟨rfl, size⟩ := Bytes.split?_eq_some_iff.1 name
  split
  · next extra =>
    rw [Bytes.split?_eq_none_iff] at extra
    refine iff_of_true rfl ?_
    rw [List.length_append]
    omega
  next rest extra =>
  obtain ⟨rfl, size'⟩ := Bytes.split?_eq_some_iff.1 extra
  split
  · next comment =>
    rw [Bytes.split?_eq_none_iff] at comment
    refine iff_of_true rfl ?_
    rw [List.length_append, List.length_append]
    omega
  next rest comment =>
  obtain ⟨rfl, size''⟩ := Bytes.split?_eq_some_iff.1 comment
  refine iff_of_false nofun ?_
  simp only [List.length_append]
  omega

end Header

/-! ### Parsing a record -/

theorem parse_of_short {bytes : Bytes} (short : bytes.length < fixedSize) :
    parse bytes = .error (.recordHeaderTooShort bytes.length) := by
  cases read : readHeader.run bytes with
  | none => rw [parse, read]
  | some found =>
    obtain ⟨⟨sign, header⟩, rest⟩ := found
    rw [run_readHeader_eq_some_iff.1 read, Header.length_append_encode] at short
    omega

theorem parse_of_header (sign : UInt32) (header : Header) (rest : Bytes) :
    parse (Bytes.word32 sign ++ (header.encode ++ rest)) =
      if sign ≠ signature then .error (.notDirectoryRecord sign)
      else match header.complete? rest with
        | none => .error (.recordTooShort header.recordSize
            (Bytes.word32 sign ++ (header.encode ++ rest)).length)
        | some found => .ok found := by
  have read : readHeader.run (Bytes.word32 sign ++ (header.encode ++ rest)) =
      some ((sign, header), rest) := run_readHeader_eq_some_iff.2 rfl
  unfold parse
  split
  · next none => cases none.symm.trans read
  · next other =>
    cases other.symm.trans read
    rfl

theorem parse_of_malformed {bytes : Bytes} {fault : Fault} (malformed : Malformed bytes fault) :
    parse bytes = .error fault := by
  cases malformed with
  | short short => exact parse_of_short short
  | unsigned long other =>
    obtain ⟨sign, header, rest, rfl⟩ := Header.exists_encode long
    rw [Header.field_sign] at other ⊢
    have unsigned : sign ≠ signature := fun same => other (congrArg UInt32.toNat same)
    rw [parse_of_header, if_pos unsigned, UInt32.ofNat_toNat]
  | cut long signed cut =>
    obtain ⟨sign, header, rest, rfl⟩ := Header.exists_encode long
    rw [Header.field_sign] at signed
    rw [Header.declaredSize_eq] at cut ⊢
    have incomplete : header.complete? rest = none :=
      Header.complete?_eq_none_iff.2 (by rwa [Header.length_append_encode] at cut)
    rw [parse_of_header, if_neg (not_not_intro (UInt32.toNat_inj.1 signed)), incomplete]

theorem exists_parse {bytes : Bytes} (long : fixedSize ≤ bytes.length)
    (signed : bytes.field 0 4 = signature.toNat) (whole : declaredSize bytes ≤ bytes.length) :
    ∃ found, parse bytes = .ok found := by
  obtain ⟨sign, header, rest, rfl⟩ := Header.exists_encode long
  rw [Header.field_sign] at signed
  rw [Header.declaredSize_eq, Header.length_append_encode] at whole
  rw [parse_of_header, if_neg (not_not_intro (UInt32.toNat_inj.1 signed))]
  cases complete : header.complete? rest with
  | none => exact absurd (Header.complete?_eq_none_iff.1 complete) (Nat.not_lt.2 whole)
  | some found => exact ⟨found, rfl⟩

/-- A buffer begins with a record, or it is malformed. -/
theorem exists_parse_or_malformed (bytes : Bytes) :
    (∃ found, parse bytes = .ok found) ∨ ∃ fault, Malformed bytes fault := by
  by_cases short : bytes.length < fixedSize
  · exact .inr ⟨_, .short short⟩
  have long : fixedSize ≤ bytes.length := Nat.le_of_not_lt short
  by_cases signed : bytes.field 0 4 = signature.toNat
  · by_cases cut : bytes.length < declaredSize bytes
    · exact .inr ⟨_, .cut long signed cut⟩
    · exact .inl (exists_parse long signed (Nat.le_of_not_lt cut))
  · exact .inr ⟨_, .unsigned long signed⟩

/-- Parsing fails exactly if the buffer does not begin with a record. -/
theorem parse_eq_error_iff {bytes : Bytes} {fault : Fault} :
    parse bytes = .error fault ↔ Malformed bytes fault := by
  constructor
  · intro failed
    rcases exists_parse_or_malformed bytes with ⟨found, parsed⟩ | ⟨other, malformed⟩
    · rw [parsed] at failed
      cases failed
    · rw [parse_of_malformed malformed] at failed
      cases failed
      exact malformed
  · exact parse_of_malformed

/-! ### Records and their bytes -/

/-- The bytes of a record tell its size, whatever follows them. -/
theorem declaredSize_encode (record : DirectoryRecord) (rest : Bytes) :
    declaredSize (record.encode ++ rest) = record.encode.length := by
  rw [encode_eq, List.append_assoc, List.append_assoc, Header.declaredSize_eq, ← encode_eq,
    length_encode, Header.recordSize, header, UInt16.toNat_ofNat_of_lt' record.nameFits,
    UInt16.toNat_ofNat_of_lt' record.extraFits, UInt16.toNat_ofNat_of_lt' record.commentFits, size]

/-- So do they tell its name. -/
theorem nameIn_encode_append (record : DirectoryRecord) (rest : Bytes) :
    nameIn (record.encode ++ rest) = record.name := by
  rw [encode_eq, List.append_assoc, List.append_assoc, Header.nameIn_eq, header,
    UInt16.toNat_ofNat_of_lt' record.nameFits, body, List.append_assoc, List.take_left, name]

theorem nameIn_encode (record : DirectoryRecord) : nameIn record.encode = record.name := by
  have alone := record.nameIn_encode_append []
  rwa [List.append_nil] at alone

/-- The byte strings that are records are the encodings. -/
theorem isRecord_iff {bytes : Bytes} : IsRecord bytes ↔ ∃ record, bytes = encode record := by
  constructor
  · intro isRecord
    have whole := isRecord.whole
    have long : fixedSize ≤ bytes.length := by
      rw [whole, declaredSize]
      omega
    obtain ⟨⟨record, rest⟩, parsed⟩ := exists_parse long isRecord.signed (Nat.le_of_eq whole.symm)
    obtain rfl := parse_eq_ok_iff.1 parsed
    -- Nothing is left, as the record is as long as it says.
    rw [declaredSize_encode, List.length_append] at whole
    have empty : rest = [] := List.length_eq_zero_iff.1 (by omega)
    exact ⟨record, by rw [empty, List.append_nil]⟩
  · rintro ⟨record, rfl⟩
    have size := record.declaredSize_encode []
    rw [List.append_nil] at size
    refine ⟨?_, size.symm⟩
    rw [encode_eq, Header.field_sign]

end DirectoryRecord

namespace Directory

open DirectoryRecord

/-! ### Parsing up to a place -/

theorem encode_append (front back : List DirectoryRecord) :
    encode (front ++ back) = encode front ++ encode back := List.flatMap_append

/-- The names of some records, added to those that are known. -/
def knownNames (known : Std.TreeSet String) (records : List DirectoryRecord) : Std.TreeSet String :=
  records.foldl (fun known record => known.insert record.name) known

theorem contains_knownNames {known : Std.TreeSet String} {records : List DirectoryRecord}
    {name : String} :
    (knownNames known records).contains name = true ↔
      known.contains name = true ∨ name ∈ names records := by
  induction records generalizing known with
  | nil => simp [knownNames, names]
  | cons record rest ih =>
    have first : (known.insert record.name).contains name = true ↔
        record.name = name ∨ known.contains name = true := by
      rw [Std.TreeSet.contains_insert, Bool.or_eq_true, beq_iff_eq,
        Std.LawfulEqOrd.compare_eq_iff_eq]
    have second : name ∈ names (record :: rest) ↔ record.name = name ∨ name ∈ names rest := by
      rw [names, List.map_cons, List.mem_cons, eq_comm, names]
    show (knownNames (known.insert record.name) rest).contains name = true ↔ _
    rw [ih, first, second]
    exact or_assoc.trans or_left_comm

/-- Records with new names are passed over, one after the other. -/
theorem parseOnto_append {found records : List DirectoryRecord} {known : Std.TreeSet String}
    {number offset count : Nat} {rest : Bytes} (distinct : (names records).Nodup)
    (fresh : ∀ record ∈ records, known.contains record.name = false) :
    parseOnto found known number offset (records.length + count) (encode records ++ rest) =
      parseOnto (records.reverse ++ found) (knownNames known records) (number + records.length)
        (offset + (encode records).length) count rest := by
  induction records generalizing found known number offset with
  | nil => simp [encode, knownNames]
  | cons record others ih =>
    obtain ⟨apart, distinct⟩ := List.nodup_cons.1 distinct
    have parsed : DirectoryRecord.parse (encode (record :: others) ++ rest) =
        .ok (record, encode others ++ rest) := by
      rw [DirectoryRecord.parse_eq_ok_iff, encode, List.flatMap_cons, List.append_assoc, encode]
    have left : (record :: others).length + count = others.length + count + 1 := by
      rw [List.length_cons, Nat.add_right_comm]
    rw [left, parseOnto, parsed]
    dsimp only
    rw [if_neg (by rw [fresh record (List.mem_cons_self ..)]; exact Bool.false_ne_true),
      ih distinct]
    · have size : (encode (record :: others)).length = record.size + (encode others).length := by
        rw [encode, List.flatMap_cons, List.length_append, length_encode, encode]
      rw [size, List.reverse_cons, List.append_assoc, List.length_cons, Nat.add_assoc number,
        Nat.add_comm 1, Nat.add_assoc offset]
      rfl
    · intro other mem
      refine contains_insert_eq_false_iff.2 ⟨?_, fresh other (List.mem_cons_of_mem _ mem)⟩
      intro same
      exact apart (List.mem_map.2 ⟨other, mem, same.symm⟩)

/-- What remains to be parsed after the records with which a directory begins. -/
theorem parse_append {records : List DirectoryRecord} {offset count : Nat} {rest : Bytes}
    (distinct : (names records).Nodup) :
    parse (records.length + count) offset (encode records ++ rest) =
      parseOnto records.reverse (knownNames ∅ records) (1 + records.length)
        (offset + (encode records).length) count rest := by
  rw [parse, parseOnto_append distinct fun _ _ => Std.TreeSet.contains_emptyc, List.append_nil]

/-! ### Where parsing stops -/

/-- After some records a buffer does not go on with another one, or with one whose name is taken. -/
inductive Stuck (records : List DirectoryRecord) : Bytes → Prop
  | malformed {rest : Bytes} {fault : Fault} (malformed : Malformed rest fault) : Stuck records rest
  | taken {record : DirectoryRecord} (tail : Bytes) (taken : record.name ∈ names records) :
    Stuck records (record.encode ++ tail)

/-- Every buffer begins with some records that are sound together. There are as many as are counted,
or no other can follow them. The induction is on the count; the next record is added at the end. -/
theorem exists_front (count : Nat) (bytes : Bytes) :
    ∃ records rest, bytes = encode records ++ rest ∧ (names records).Nodup ∧
      (records.length = count ∨ records.length < count ∧ Stuck records rest) := by
  induction count with
  | zero => exact ⟨[], bytes, rfl, List.nodup_nil, .inl rfl⟩
  | succ count ih =>
    obtain ⟨records, rest, split, distinct, all | ⟨fewer, stuck⟩⟩ := ih
    · rcases exists_parse_or_malformed rest with ⟨⟨record, tail⟩, parsed⟩ | ⟨fault, malformed⟩
      · obtain rfl := DirectoryRecord.parse_eq_ok_iff.1 parsed
        by_cases taken : record.name ∈ names records
        · exact ⟨records, _, split, distinct, .inr ⟨by omega, .taken tail taken⟩⟩
        · refine ⟨records ++ [record], tail, ?_, ?_, .inl ?_⟩
          · rw [encode_append, List.append_assoc, split]
            simp [encode]
          · rw [names, List.map_append, (List.perm_append_comm).nodup_iff]
            exact List.nodup_cons.2 ⟨taken, distinct⟩
          · rw [List.length_append, all, List.length_singleton]
      · exact ⟨records, rest, split, distinct, .inr ⟨by omega, .malformed malformed⟩⟩
    · exact ⟨records, rest, split, distinct, .inr ⟨by omega, stuck⟩⟩

section Stops

variable {records : List DirectoryRecord} {count offset : Nat} {rest : Bytes}

theorem parse_of_malformed (distinct : (names records).Nodup) (fewer : records.length < count)
    {fault : Fault} (malformed : Malformed rest fault) :
    parse count offset (encode records ++ rest) =
      .error (.format fault
        ⟨some (records.length + 1), some (offset + (encode records).length)⟩) := by
  obtain ⟨left, rfl⟩ := Nat.exists_eq_add_of_lt fewer
  rw [Nat.add_assoc, parse_append distinct, parseOnto, DirectoryRecord.parse_of_malformed malformed,
    Nat.add_comm 1]

theorem parse_of_taken (distinct : (names records).Nodup) (fewer : records.length < count)
    {record : DirectoryRecord} (taken : record.name ∈ names records) :
    parse count offset (encode records ++ (record.encode ++ rest)) =
      .error (.format (.duplicateName record.name)
        ⟨some (records.length + 1), some (offset + (encode records).length)⟩) := by
  obtain ⟨left, rfl⟩ := Nat.exists_eq_add_of_lt fewer
  rw [Nat.add_assoc, parse_append distinct, parseOnto, DirectoryRecord.parse_eq_ok_iff.2 rfl,
    Nat.add_comm 1]
  exact if_pos (contains_knownNames.2 (.inr taken))

theorem parse_of_unused (distinct : (names records).Nodup) (all : records.length = count)
    (unused : rest ≠ []) :
    parse count offset (encode records ++ rest) =
      .error (.faultAt (offset + (encode records).length) (.unusedDirectorySpace rest.length)) := by
  rw [← all, ← Nat.add_zero records.length, parse_append distinct, parseOnto,
    if_neg (by rw [List.isEmpty_iff]; exact unused)]

end Stops

/-! ### Directories as byte strings -/

/-- Byte strings that follow each other in a directory: each is a record, and the names in them are
distinct. -/
structure Sound (parts : List Bytes) : Prop where
  isRecord : ∀ part ∈ parts, IsRecord part
  distinct : (parts.map nameIn).Nodup

/-- The error for a directory of `count` records that begins at `offset`. Up to the place that is
blamed the directory is sound; records are numbered from one. -/
inductive Refused (count offset : Nat) (bytes : Bytes) : Error → Prop
  /-- No record follows, although more are counted. -/
  | malformed {parts : List Bytes} {rest : Bytes} {fault : Fault} (sound : Sound parts)
    (fewer : parts.length < count) (split : bytes = parts.flatten ++ rest)
    (malformed : Malformed rest fault) :
    Refused count offset bytes
      (.format fault ⟨some (parts.length + 1), some (offset + parts.flatten.length)⟩)
  /-- A record follows, and has the name of one before it. -/
  | repeated {parts : List Bytes} {part rest : Bytes} (sound : Sound parts)
    (fewer : parts.length < count) (split : bytes = parts.flatten ++ (part ++ rest))
    (isRecord : IsRecord part) (taken : nameIn part ∈ parts.map nameIn) :
    Refused count offset bytes (.format (.duplicateName (nameIn part))
      ⟨some (parts.length + 1), some (offset + parts.flatten.length)⟩)
  /-- All records are there, and something follows them. -/
  | unused {parts : List Bytes} {rest : Bytes} (sound : Sound parts) (all : parts.length = count)
    (split : bytes = parts.flatten ++ rest) (unused : rest ≠ []) :
    Refused count offset bytes
      (.faultAt (offset + parts.flatten.length) (.unusedDirectorySpace rest.length))

theorem map_nameIn_encode (records : List DirectoryRecord) :
    (records.map DirectoryRecord.encode).map nameIn = names records := by
  rw [List.map_map, names]
  apply List.map_congr_left
  intro record _
  exact record.nameIn_encode

/-- The bytes of records are sound exactly if their names are distinct. -/
theorem sound_map_encode {records : List DirectoryRecord} :
    Sound (records.map DirectoryRecord.encode) ↔ (names records).Nodup := by
  rw [← map_nameIn_encode]
  constructor
  · exact Sound.distinct
  · intro distinct
    refine ⟨?_, distinct⟩
    intro part mem
    obtain ⟨record, -, rfl⟩ := List.mem_map.1 mem
    exact isRecord_iff.2 ⟨record, rfl⟩

theorem exists_map_encode {parts : List Bytes} (isRecord : ∀ part ∈ parts, IsRecord part) :
    ∃ records : List DirectoryRecord, parts = records.map DirectoryRecord.encode := by
  induction parts with
  | nil => exact ⟨[], rfl⟩
  | cons part others ih =>
    obtain ⟨record, rfl⟩ := isRecord_iff.1 (isRecord part (List.mem_cons_self ..))
    obtain ⟨records, rfl⟩ := ih fun other mem => isRecord other (List.mem_cons_of_mem _ mem)
    exact ⟨record :: records, rfl⟩

theorem Sound.exists_records {parts : List Bytes} (sound : Sound parts) :
    ∃ records : List DirectoryRecord, parts = records.map DirectoryRecord.encode ∧
      parts.flatten = encode records ∧ (names records).Nodup := by
  obtain ⟨records, rfl⟩ := exists_map_encode sound.isRecord
  exact ⟨records, rfl, List.flatMap_def.symm, sound_map_encode.1 sound⟩

theorem exists_parse_iff {count offset : Nat} {bytes : Bytes} :
    (∃ records, parse count offset bytes = .ok records) ↔
      ∃ parts, Sound parts ∧ parts.length = count ∧ bytes = parts.flatten := by
  simp only [parse_eq_ok_iff]
  constructor
  · rintro ⟨records, rfl, rfl, distinct⟩
    exact ⟨records.map DirectoryRecord.encode, sound_map_encode.2 distinct, List.length_map _,
      List.flatMap_def⟩
  · rintro ⟨parts, sound, rfl, rfl⟩
    obtain ⟨records, rfl, flat, distinct⟩ := sound.exists_records
    exact ⟨records, flat, (List.length_map _).symm, distinct⟩

/-- What is refused is not parsed. -/
theorem parse_of_refused {count offset : Nat} {bytes : Bytes} {error : Error}
    (refused : Refused count offset bytes error) : parse count offset bytes = .error error := by
  cases refused with
  | malformed sound fewer split malformed =>
    obtain ⟨records, rfl, flat, distinct⟩ := sound.exists_records
    rw [List.length_map] at fewer ⊢
    rw [split, flat, parse_of_malformed distinct fewer malformed]
  | repeated sound fewer split isRecord taken =>
    obtain ⟨records, rfl, flat, distinct⟩ := sound.exists_records
    obtain ⟨record, rfl⟩ := isRecord_iff.1 isRecord
    rw [nameIn_encode, map_nameIn_encode] at taken
    rw [List.length_map] at fewer ⊢
    rw [split, flat, nameIn_encode, parse_of_taken distinct fewer taken]
  | unused sound all split unused =>
    obtain ⟨records, rfl, flat, distinct⟩ := sound.exists_records
    rw [List.length_map] at all
    rw [split, flat, parse_of_unused distinct all unused]

/-- Sound records followed by something else are refused. -/
theorem exists_refused {count offset : Nat} {records : List DirectoryRecord} {rest : Bytes}
    (distinct : (names records).Nodup)
    (stops : records.length = count ∧ rest ≠ [] ∨ records.length < count ∧ Stuck records rest) :
    ∃ error, Refused count offset (encode records ++ rest) error := by
  have sound := sound_map_encode.2 distinct
  have flat : encode records = (records.map DirectoryRecord.encode).flatten := List.flatMap_def
  have length : (records.map DirectoryRecord.encode).length = records.length := List.length_map _
  rw [flat]
  rcases stops with ⟨all, unused⟩ | ⟨fewer, malformed | ⟨tail, taken⟩⟩
  · exact ⟨_, .unused sound (length.trans all) rfl unused⟩
  · next malformed => exact ⟨_, .malformed sound (length ▸ fewer) rfl malformed⟩
  · next record =>
    rw [← map_nameIn_encode, ← record.nameIn_encode] at taken
    exact ⟨_, .repeated sound (length ▸ fewer) rfl (isRecord_iff.2 ⟨record, rfl⟩) taken⟩

theorem parse_eq_error_iff {count offset : Nat} {bytes : Bytes} {error : Error} :
    parse count offset bytes = .error error ↔ Refused count offset bytes error := by
  constructor
  · intro failed
    obtain ⟨records, rest, rfl, distinct, stops⟩ := exists_front count bytes
    by_cases complete : records.length = count ∧ rest = []
    · obtain ⟨rfl, rfl⟩ := complete
      rw [List.append_nil, parse_eq_ok_iff.2 ⟨rfl, rfl, distinct⟩] at failed
      cases failed
    · have stops : records.length = count ∧ rest ≠ [] ∨
          records.length < count ∧ Stuck records rest :=
        stops.imp_left fun all => ⟨all, fun empty => complete ⟨all, empty⟩⟩
      obtain ⟨other, refused⟩ : ∃ other, Refused count offset (encode records ++ rest) other :=
        exists_refused distinct stops
      rw [parse_of_refused refused] at failed
      cases failed
      exact refused
  · exact parse_of_refused

/-- A directory is parsed exactly if it consists of as many records as are counted, with distinct
names, and then it can be written back from what was parsed. Otherwise the error is the fault of the
first record that does not fit in, with its number and its place, or of the bytes that are left. -/
theorem parsed_iff_sound (count offset : Nat) (bytes : Bytes) :
    ((∃ records, parse count offset bytes = .ok records) ↔
        ∃ parts, Sound parts ∧ parts.length = count ∧ bytes = parts.flatten) ∧
      (∀ records, parse count offset bytes = .ok records → encode records = bytes) ∧
      ∀ error, parse count offset bytes = .error error ↔ Refused count offset bytes error := by
  refine ⟨exists_parse_iff, ?_, ?_⟩
  · intro records parsed
    exact (parse_eq_ok_iff.1 parsed).1.symm
  · intro error
    exact parse_eq_error_iff

end Directory
end ApkArchive

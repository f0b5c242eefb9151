import ApkArchive.Zip.Directory

/-!
# Directories are read back as they were written

A directory record is its header and three byte strings whose lengths stand in the header, so a
buffer begins with the bytes of at most one record:

    parse bytes = ok (record, rest) ↔ bytes = encode record ++ rest

A directory is parsed exactly if it is the bytes of as many records as are counted, with pairwise
distinct names:

    parse count offset bytes = ok records ↔
      bytes = encode records ∧ records.length = count ∧ the names are distinct
-/

namespace ApkArchive

namespace DirectoryRecord

namespace Header

/-- The bytes of a header. -/
def encode (header : Header) : Bytes :=
  Bytes.word16 header.madeBy ++ (Bytes.word16 header.needed ++ (Bytes.word16 header.flags ++
    (Bytes.word16 header.methodCode ++ (Bytes.word16 header.time ++ (Bytes.word16 header.date ++
      (Bytes.word32 header.crc32 ++ (Bytes.word32 header.compressedSize ++
        (Bytes.word32 header.uncompressedSize ++ (Bytes.word16 header.nameSize ++
          (Bytes.word16 header.extraSize ++ (Bytes.word16 header.commentSize ++
            (Bytes.word16 header.disk ++ (Bytes.word16 header.internalAttributes ++
              (Bytes.word32 header.externalAttributes ++
                Bytes.word32 header.localOffset))))))))))))))

theorem run_read_eq_some_iff {bytes rest : Bytes} {header : Header} :
    read.run bytes = some (header, rest) ↔ bytes = header.encode ++ rest := by
  constructor
  · intro h
    unfold read at h
    simp only [Reader.run_word16_bind_eq_some_iff, Reader.run_word32_bind_eq_some_iff] at h
    obtain ⟨_, _, rfl, _, _, rfl, _, _, rfl, _, _, rfl, _, _, rfl, _, _, rfl, _, _, rfl,
      _, _, rfl, _, _, rfl, _, _, rfl, _, _, rfl, _, _, rfl, _, _, rfl, _, _, rfl, _, _, rfl,
      _, _, rfl, ⟨⟩⟩ := h
    simp only [encode, List.append_assoc]
  · rintro rfl
    unfold read
    simp only [encode, List.append_assoc, Reader.run_word16_bind, Reader.run_word32_bind]
    rfl

end Header

/-- The header of a record. -/
def header (record : DirectoryRecord) : Header where
  madeBy := record.madeBy
  needed := record.needed
  flags := record.flags
  methodCode := record.methodCode
  time := record.time
  date := record.date
  crc32 := record.crc32
  compressedSize := record.compressedSize
  uncompressedSize := record.uncompressedSize
  nameSize := UInt16.ofNat record.nameBytes.length
  extraSize := UInt16.ofNat record.extra.length
  commentSize := UInt16.ofNat record.comment.length
  disk := record.disk
  internalAttributes := record.internalAttributes
  externalAttributes := record.externalAttributes
  localOffset := record.localOffset

/-- What follows the header of a record. -/
def body (record : DirectoryRecord) : Bytes := record.nameBytes ++ (record.extra ++ record.comment)

theorem encode_eq (record : DirectoryRecord) :
    record.encode = Bytes.word32 signature ++ (record.header.encode ++ record.body) := by
  simp only [encode, encodeFields, Header.encode, header, body, List.append_assoc]

/-- A header is completed by the three byte strings whose lengths it has, and by nothing else. -/
theorem Header.complete?_eq_some_iff {header : Header} {bytes rest : Bytes}
    {record : DirectoryRecord} :
    header.complete? bytes = some (record, rest) ↔
      header = record.header ∧ bytes = record.body ++ rest := by
  constructor
  · intro h
    unfold complete? at h
    split at h
    · cases h
    · next nameBytes left₁ name =>
      obtain ⟨rfl, nameSize⟩ := Bytes.split?_eq_some_iff.1 name
      split at h
      · cases h
      · next extra left₂ second =>
        obtain ⟨rfl, extraSize⟩ := Bytes.split?_eq_some_iff.1 second
        split at h
        · cases h
        · next comment left₃ third =>
          obtain ⟨rfl, commentSize⟩ := Bytes.split?_eq_some_iff.1 third
          cases h
          simp only [DirectoryRecord.header, body, nameSize, extraSize, commentSize,
            UInt16.ofNat_toNat, List.append_assoc, and_self]
  · rintro ⟨rfl, rfl⟩
    have name : Bytes.split? record.header.nameSize.toNat (record.body ++ rest) =
        some (record.nameBytes, record.extra ++ (record.comment ++ rest)) := by
      rw [Bytes.split?_eq_some_iff, DirectoryRecord.header,
        UInt16.toNat_ofNat_of_lt' record.nameFits]
      simp only [body, List.append_assoc, and_self]
    have extra : Bytes.split? record.header.extraSize.toNat
        (record.extra ++ (record.comment ++ rest)) =
          some (record.extra, record.comment ++ rest) := by
      rw [Bytes.split?_eq_some_iff, DirectoryRecord.header,
        UInt16.toNat_ofNat_of_lt' record.extraFits]
      exact ⟨rfl, rfl⟩
    have comment : Bytes.split? record.header.commentSize.toNat (record.comment ++ rest) =
        some (record.comment, rest) := by
      rw [Bytes.split?_eq_some_iff, DirectoryRecord.header,
        UInt16.toNat_ofNat_of_lt' record.commentFits]
      exact ⟨rfl, rfl⟩
    unfold complete?
    split
    · next h => cases name.symm.trans h
    · next h =>
      cases name.symm.trans h
      split
      · next h => cases extra.symm.trans h
      · next h =>
        cases extra.symm.trans h
        split
        · next h => cases comment.symm.trans h
        · next h =>
          cases comment.symm.trans h
          rfl

theorem run_readHeader_eq_some_iff {bytes rest : Bytes} {sign : UInt32} {header : Header} :
    readHeader.run bytes = some ((sign, header), rest) ↔
      bytes = Bytes.word32 sign ++ (header.encode ++ rest) := by
  simp only [readHeader, StateT.run_bind, Option.bind_eq_bind, Option.bind_eq_some_iff,
    Prod.exists, Reader.word32_run_eq_some_iff, Header.run_read_eq_some_iff, pure]
  constructor
  · rintro ⟨_, _, rfl, _, _, rfl, ⟨⟩⟩
    rfl
  · rintro rfl
    exact ⟨sign, _, rfl, header, rest, rfl, rfl⟩

theorem parse_eq_ok_iff {bytes rest : Bytes} {record : DirectoryRecord} :
    parse bytes = .ok (record, rest) ↔ bytes = record.encode ++ rest := by
  rw [encode_eq, List.append_assoc, List.append_assoc]
  unfold parse
  split
  · next short =>
    constructor
    · intro h; cases h
    · rintro rfl
      cases short.symm.trans (run_readHeader_eq_some_iff.2 rfl)
  · next sign header left found =>
    rw [run_readHeader_eq_some_iff] at found
    constructor
    · intro h
      split at h
      · cases h
      · next signed =>
        split at h
        · cases h
        · next complete =>
          cases h
          obtain ⟨rfl, rfl⟩ := Header.complete?_eq_some_iff.1 complete
          rw [found, Decidable.not_not.1 signed]
    · rintro rfl
      have := run_readHeader_eq_some_iff.2 found
      rw [run_readHeader_eq_some_iff.2 rfl] at this
      cases this
      rw [if_neg (not_not_intro rfl), Header.complete?_eq_some_iff.2 ⟨rfl, rfl⟩]

/-- The fields before the place of the local record. -/
def front (record : DirectoryRecord) : Bytes :=
  Bytes.word32 signature ++ (Bytes.word16 record.madeBy ++ (Bytes.word16 record.needed ++
    (Bytes.word16 record.flags ++ (Bytes.word16 record.methodCode ++ (Bytes.word16 record.time ++
      (Bytes.word16 record.date ++ (Bytes.word32 record.crc32 ++
        (Bytes.word32 record.compressedSize ++ (Bytes.word32 record.uncompressedSize ++
          (Bytes.word16 (UInt16.ofNat record.nameBytes.length) ++
            (Bytes.word16 (UInt16.ofNat record.extra.length) ++
              (Bytes.word16 (UInt16.ofNat record.comment.length) ++ (Bytes.word16 record.disk ++
                (Bytes.word16 record.internalAttributes ++
                  Bytes.word32 record.externalAttributes))))))))))))))

theorem length_front (record : DirectoryRecord) : record.front.length = 42 := by
  simp only [front, List.length_append, Bytes.length_word32, Bytes.length_word16]

theorem encode_eq_front (record : DirectoryRecord) :
    record.encode = record.front ++ (Bytes.word32 record.localOffset ++ record.body) := by
  simp only [encode_eq, header, Header.encode, front, body, List.append_assoc]

theorem take_encode (record : DirectoryRecord) : record.encode.take 42 = record.front := by
  rw [encode_eq_front, List.take_left' record.length_front]

theorem drop_encode (record : DirectoryRecord) : record.encode.drop 46 = record.body := by
  rw [encode_eq_front, ← List.append_assoc]
  exact List.drop_left' (by rw [List.length_append, length_front, Bytes.length_word32])

/-- The place of the local record is a word of four bytes at a fixed place; nothing else changes. -/
theorem encode_withLocalOffset (record : DirectoryRecord) (offset : UInt32) :
    (record.withLocalOffset offset).encode.take 42 = record.encode.take 42 ∧
      (record.withLocalOffset offset).encode.drop 46 = record.encode.drop 46 := by
  rw [take_encode, take_encode, drop_encode, drop_encode]
  exact ⟨rfl, rfl⟩

end DirectoryRecord

namespace Directory

theorem size_eq (records : List DirectoryRecord) : size records = (encode records).length := by
  induction records with
  | nil => rfl
  | cons record rest ih =>
    show record.size + size rest = (record.encode ++ encode rest).length
    rw [List.length_append, DirectoryRecord.length_encode, ih]

/-- The names of some records. -/
def names (records : List DirectoryRecord) : List String := records.map (·.name)

theorem contains_insert_eq_false_iff {names : Std.TreeSet String} {first name : String} :
    (names.insert first).contains name = false ↔ first ≠ name ∧ names.contains name = false := by
  rw [Std.TreeSet.contains_insert, Bool.or_eq_false_iff, beq_eq_false_iff_ne, ne_eq,
    Std.LawfulEqOrd.compare_eq_iff_eq]

/-- The induction is on the count; `found` and its names are what stands before the bytes. -/
theorem parseOnto_eq_ok_iff {found records : List DirectoryRecord} {known : Std.TreeSet String}
    {number offset count : Nat} {bytes : Bytes} :
    parseOnto found known number offset count bytes = .ok records ↔
      ∃ rest, records = found.reverse ++ rest ∧ rest.length = count ∧ bytes = encode rest ∧
        (names rest).Nodup ∧ ∀ record ∈ rest, known.contains record.name = false := by
  induction count generalizing found known number offset bytes with
  | zero =>
    unfold parseOnto
    constructor
    · intro h
      split at h
      · next empty =>
        cases h
        exact ⟨[], (List.append_nil _).symm, rfl, List.isEmpty_iff.1 empty, List.nodup_nil,
          fun _ mem => nomatch mem⟩
      · cases h
    · rintro ⟨rest, rfl, none_left, rfl, _⟩
      cases List.length_eq_zero_iff.1 none_left
      rw [List.append_nil]
      rfl
  | succ count ih =>
    unfold parseOnto
    constructor
    · intro h
      split at h
      · cases h
      · next record left parsed =>
        dsimp only at h
        split at h
        · cases h
        · next fresh =>
          obtain ⟨rest, rfl, rfl, rfl, distinct, others⟩ := ih.1 h
          have apart := fun next mem => contains_insert_eq_false_iff.1 (others next mem)
          refine ⟨record :: rest, by simp, rfl, DirectoryRecord.parse_eq_ok_iff.1 parsed, ?_, ?_⟩
          · refine List.nodup_cons.2 ⟨?_, distinct⟩
            intro repeated
            obtain ⟨next, mem, same⟩ := List.mem_map.1 repeated
            exact (apart next mem).1 same.symm
          · intro next mem
            rcases List.mem_cons.1 mem with rfl | later
            · exact Bool.eq_false_iff.2 fresh
            · exact (apart next later).2
    · rintro ⟨rest, rfl, long, rfl, distinct, others⟩
      match rest, long with
      | record :: rest, long =>
        obtain ⟨apart, distinct⟩ := List.nodup_cons.1 distinct
        have parsed : DirectoryRecord.parse (encode (record :: rest)) = .ok (record, encode rest) :=
          DirectoryRecord.parse_eq_ok_iff.2 rfl
        rw [parsed]
        dsimp only
        rw [others record (List.mem_cons_self ..)]
        refine ih.2 ⟨rest, by simp, by simpa using long, rfl, distinct, ?_⟩
        intro next mem
        refine contains_insert_eq_false_iff.2 ⟨?_, others next (List.mem_cons_of_mem _ mem)⟩
        intro same
        exact apart (List.mem_map.2 ⟨next, mem, same.symm⟩)

theorem parse_eq_ok_iff {count offset : Nat} {bytes : Bytes} {records : List DirectoryRecord} :
    parse count offset bytes = .ok records ↔
      bytes = encode records ∧ records.length = count ∧ (names records).Nodup := by
  unfold parse
  rw [parseOnto_eq_ok_iff]
  constructor
  · rintro ⟨rest, rfl, rfl, rfl, distinct, _⟩
    exact ⟨rfl, rfl, distinct⟩
  · rintro ⟨rfl, rfl, distinct⟩
    exact ⟨records, rfl, rfl, rfl, distinct, fun _ _ => Std.TreeSet.contains_emptyc⟩

end Directory
end ApkArchive

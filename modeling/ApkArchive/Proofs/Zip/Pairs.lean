import ApkArchive.Proofs.Bytes.Field
import ApkArchive.Proofs.Zip.SigningBlock

/-!
# The pairs of a signing block

Each pair says how long it is, so where a pair begins depends on all pairs before it. Parsing goes
wrong at the first place that has more bytes but no pair, and nowhere else:

    parsePairs offset bytes = ok pairs ↔ bytes = encodePairs pairs
    parsePairs offset bytes = error (faultAt (offset + place) fault) ↔ MisfitAt bytes place fault

The length of a pair is a word of eight bytes. It can be trusted as long as the bytes are fewer than
such a word can count, and a buffer never has more.
-/

namespace ApkArchive

open Bytes

namespace SigningBlock

/-! ### One pair -/

/-- Why no pair stands at the front of some bytes. -/
inductive Misfit (bytes : Bytes) : Fault → Prop
  /-- There is no whole length. -/
  | cutOff (short : bytes.length < 8) : Misfit bytes .pairLengthCutOff
  /-- The length has no room for an identifier, or it goes beyond the last byte. -/
  | outOfRange (long : 8 ≤ bytes.length)
      (bad : bytes.field 0 8 < 4 ∨ bytes.length < 8 + bytes.field 0 8) :
      Misfit bytes (.pairLengthOutOfRange (bytes.field 0 8))

namespace Misfit

variable {bytes : Bytes} {fault fault' : Fault}

/-- There is one reason. -/
theorem unique (misfit : Misfit bytes fault) (misfit' : Misfit bytes fault') : fault = fault' := by
  cases misfit with
  | cutOff short =>
    cases misfit' with
    | cutOff => rfl
    | outOfRange long => omega
  | outOfRange long =>
    cases misfit' with
    | cutOff short => omega
    | outOfRange => rfl

end Misfit

namespace Pair

theorem length_encode (pair : Pair) : pair.encode.length = 12 + pair.value.length := by
  simp only [encode, List.length_append, length_word64, length_word32]
  omega

/-- The length that a pair declares; a longer pair would not fit into memory. -/
theorem toNat_length {pair : Pair} (small : pair.encode.length < UInt64.size) :
    (UInt64.ofNat (4 + pair.value.length)).toNat = 4 + pair.value.length := by
  rw [length_encode] at small
  exact UInt64.toNat_ofNat_of_lt' (by omega)

end Pair

variable {bytes rest : Bytes} {pair : Pair} {fault : Fault}

theorem parsePair_encode (small : pair.encode.length < UInt64.size) (rest : Bytes) :
    parsePair (pair.encode ++ rest) = .ok (pair, rest) := by
  have body : (word32 pair.id ++ pair.value).length =
      (UInt64.ofNat (4 + pair.value.length)).toNat := by
    rw [Pair.toNat_length small, List.length_append, length_word32]
  rw [Pair.encode, List.append_assoc, parsePair, Reader.word64_run_eq_some_iff.2 rfl]
  dsimp only
  rw [Reader.take_run_eq_some_iff.2 ⟨rfl, body⟩]
  dsimp only
  rw [Reader.word32_run_eq_some_iff.2 rfl]

/-- What is parsed stands there. -/
theorem eq_encode_of_parsePair (parsed : parsePair bytes = .ok (pair, rest)) :
    bytes = pair.encode ++ rest := by
  unfold parsePair at parsed
  split at parsed
  · cases parsed
  next length tail first =>
  split at parsed
  · cases parsed
  next body back second =>
  split at parsed
  · cases parsed
  next id value third =>
  cases parsed
  rw [Reader.word64_run_eq_some_iff] at first
  obtain ⟨rfl, size⟩ := Reader.take_run_eq_some_iff.1 second
  rw [Reader.word32_run_eq_some_iff] at third
  rw [third, List.length_append, length_word32] at size
  have length_eq : UInt64.ofNat (4 + value.length) = length := by rw [size, UInt64.ofNat_toNat]
  simp only [first, third, Pair.encode, length_eq, List.append_assoc]

theorem misfit_of_parsePair (failed : parsePair bytes = .error fault) : Misfit bytes fault := by
  unfold parsePair at failed
  split at failed
  · next none =>
    cases failed
    apply Misfit.cutOff
    apply Nat.lt_of_not_le
    intro enough
    obtain ⟨_, _, read, _⟩ := Reader.takes_word64 bytes enough
    cases none.symm.trans read
  next length tail first =>
  rw [Reader.word64_run_eq_some_iff] at first
  have declared : bytes.field 0 8 = length.toNat := by rw [first, field_word64]
  have size : bytes.length = 8 + tail.length := by rw [first, List.length_append, length_word64]
  have long : 8 ≤ bytes.length := Nat.le.intro size.symm
  rw [← declared] at failed
  split at failed
  · next none =>
    cases failed
    refine Misfit.outOfRange long (.inr ?_)
    apply Nat.lt_of_not_le
    intro enough
    obtain ⟨_, _, read, _⟩ := Reader.takes_take (bytes.field 0 8) tail (by omega)
    cases none.symm.trans read
  next body back second =>
  obtain ⟨-, room⟩ := Reader.take_run_eq_some_iff.1 second
  split at failed
  · next none =>
    cases failed
    refine Misfit.outOfRange long (.inl ?_)
    apply Nat.lt_of_not_le
    intro enough
    obtain ⟨_, _, read, _⟩ := Reader.takes_word32 body (by omega)
    cases none.symm.trans read
  · cases failed

/-- Where a pair stands nothing is wrong. -/
theorem not_misfit_encode (small : pair.encode.length < UInt64.size) (rest : Bytes) :
    ¬ Misfit (pair.encode ++ rest) fault := by
  have size := pair.length_encode
  have declared : (pair.encode ++ rest).field 0 8 = 4 + pair.value.length := by
    rw [← Pair.toNat_length small, Pair.encode, List.append_assoc, field_word64]
  intro misfit
  cases misfit with
  | cutOff short =>
    rw [List.length_append] at short
    omega
  | outOfRange long bad =>
    rw [declared, List.length_append] at bad
    omega

theorem parsePair_eq_error_iff (small : bytes.length < UInt64.size) :
    parsePair bytes = .error fault ↔ Misfit bytes fault := by
  constructor
  · exact misfit_of_parsePair
  · intro misfit
    cases result : parsePair bytes with
    | error other => rw [(misfit_of_parsePair result).unique misfit]
    | ok found =>
      obtain ⟨pair, rest⟩ := found
      obtain rfl := eq_encode_of_parsePair result
      rw [List.length_append] at small
      exact absurd misfit (not_misfit_encode (by omega) rest)

/-! ### Pairs one after the other -/

theorem encodePairs_cons (pair : Pair) (pairs : List Pair) :
    encodePairs (pair :: pairs) = pair.encode ++ encodePairs pairs := List.flatMap_cons

variable {offset : Nat} {pairs : List Pair} {error : Error}

theorem parsePairs_nil (offset : Nat) : parsePairs offset [] = .ok [] := by
  rw [parsePairs, if_pos rfl]

theorem parsePairs_of_pair (parsed : parsePair bytes = .ok (pair, rest)) :
    parsePairs offset bytes =
      (pair :: ·) <$> parsePairs (offset + pair.encode.length) rest := by
  have shorter := length_parsePair_lt parsed
  have some : bytes ≠ [] := List.ne_nil_of_length_pos (by omega)
  rw [parsePairs, if_neg some]
  split
  · next other => cases parsed.symm.trans other
  · next other =>
    cases parsed.symm.trans other
    exact bind_pure_comp ..

theorem parsePairs_of_misfit (some : bytes ≠ []) (failed : parsePair bytes = .error fault) :
    parsePairs offset bytes = .error (.faultAt offset fault) := by
  rw [parsePairs, if_neg some]
  split
  · next other =>
    cases failed.symm.trans other
    rfl
  · next other => cases failed.symm.trans other

/-- Pairs in front are parsed whatever follows them. -/
theorem parsePairs_append (small : (encodePairs pairs).length < UInt64.size) (rest : Bytes) :
    parsePairs offset (encodePairs pairs ++ rest) =
      (pairs ++ ·) <$> parsePairs (offset + (encodePairs pairs).length) rest := by
  induction pairs generalizing offset with
  | nil => exact (id_map _).symm
  | cons pair pairs ih =>
    rw [encodePairs_cons, List.length_append] at small
    have parsed : parsePair (pair.encode ++ (encodePairs pairs ++ rest)) =
        .ok (pair, encodePairs pairs ++ rest) := parsePair_encode (by omega) _
    rw [encodePairs_cons, List.append_assoc, parsePairs_of_pair parsed, ih (by omega),
      List.length_append, Nat.add_assoc, ← comp_map]
    rfl

/-- What is parsed are the pairs, in order, and nothing is left. -/
theorem eq_encodePairs_of_parsePairs (parsed : parsePairs offset bytes = .ok pairs) :
    bytes = encodePairs pairs := by
  fun_induction parsePairs offset bytes generalizing pairs with
  | case1 offset =>
    cases parsed
    rfl
  | case2 => cases parsed
  | case3 offset bytes some pair rest first ih =>
    obtain ⟨later, run, done⟩ := bind_eq_ok_iff.1 parsed
    cases done
    rw [encodePairs_cons, ← ih run]
    exact eq_encode_of_parsePair first

theorem parsePairs_eq_ok_iff (small : bytes.length < UInt64.size) :
    parsePairs offset bytes = .ok pairs ↔ bytes = encodePairs pairs := by
  constructor
  · exact eq_encodePairs_of_parsePairs
  · rintro rfl
    rw [← List.append_nil (encodePairs pairs), parsePairs_append small, parsePairs_nil]
    exact congrArg Except.ok (List.append_nil pairs)

/-- Behind the pairs with which some bytes begin more bytes follow, but no pair stands there. -/
def MisfitAt (bytes : Bytes) (place : Nat) (fault : Fault) : Prop :=
  ∃ pairs rest, bytes = encodePairs pairs ++ rest ∧ (encodePairs pairs).length = place ∧
    rest ≠ [] ∧ Misfit rest fault

theorem MisfitAt.cons {place : Nat} (misfit : MisfitAt rest place fault) (pair : Pair) :
    MisfitAt (pair.encode ++ rest) (pair.encode.length + place) fault := by
  obtain ⟨pairs, back, rfl, rfl, some, misfit⟩ := misfit
  refine ⟨pair :: pairs, back, ?_, ?_, some, misfit⟩
  · rw [encodePairs_cons, List.append_assoc]
  · rw [encodePairs_cons, List.length_append]

theorem misfitAt_of_parsePairs (failed : parsePairs offset bytes = .error error) :
    ∃ place fault, MisfitAt bytes place fault ∧ error = .faultAt (offset + place) fault := by
  fun_induction parsePairs offset bytes with
  | case1 => cases failed
  | case2 offset bytes some fault first =>
    cases failed
    exact ⟨0, fault, ⟨[], bytes, rfl, rfl, some, misfit_of_parsePair first⟩, rfl⟩
  | case3 offset bytes some pair rest first ih =>
    cases result : parsePairs (offset + pair.encode.length) rest with
    | ok later =>
      rw [result] at failed
      cases failed
    | error other =>
      rw [result] at failed
      cases failed
      obtain ⟨place, fault, misfit, rfl⟩ := ih result
      rw [eq_encode_of_parsePair first, Nat.add_assoc]
      exact ⟨_, fault, misfit.cons pair, rfl⟩

theorem parsePairs_eq_error_iff (small : bytes.length < UInt64.size) :
    parsePairs offset bytes = .error error ↔
      ∃ place fault, MisfitAt bytes place fault ∧ error = .faultAt (offset + place) fault := by
  constructor
  · exact misfitAt_of_parsePairs
  · rintro ⟨_, fault, ⟨pairs, rest, rfl, rfl, some, misfit⟩, rfl⟩
    rw [List.length_append] at small
    have failed : parsePair rest = .error fault := (parsePair_eq_error_iff (by omega)).2 misfit
    rw [parsePairs_append (by omega), parsePairs_of_misfit some failed]
    rfl

/-! ### Blocks -/

/-- The bytes between the two frames of a block, of 8 bytes and of 24. -/
def middle (block : Bytes) : Bytes := (block.drop 8).take (block.length - frameSize)

/-- The bytes of a buffer can be counted. -/
theorem length_middle_lt (short : bytes.length ≤ View.maxBufferSize) :
    (middle bytes).length < UInt64.size := by
  rw [middle, List.length_take]
  simp only [View.maxBufferSize, UInt64.size] at short ⊢
  omega

theorem pairs_eq_parsePairs {block : SigningBlock} (shows : block.contents.Shows bytes)
    (long : frameSize ≤ bytes.length) (short : bytes.length ≤ View.maxBufferSize) :
    block.pairs = parsePairs (block.offset + 8) (middle bytes) := by
  have fits : 8 + (bytes.length - frameSize) ≤ bytes.length := by
    simp only [frameSize] at long ⊢
    omega
  have read := shows.read 8 (bytes.length - frameSize) fits (by omega)
  rw [shows.bytes_eq fits] at read
  rw [pairs, shows.size, if_neg (Nat.not_lt.2 long), read]
  rfl

theorem length_encode (pairs : List Pair) :
    (encode pairs).length = (encodePairs pairs).length + frameSize := by
  simp only [encode, List.length_append, length_word64, magic, List.length_cons, List.length_nil,
    frameSize]
  omega

theorem middle_encode (pairs : List Pair) : middle (encode pairs) = encodePairs pairs := by
  rw [middle, length_encode, Nat.add_sub_cancel, encode, List.drop_left' (length_word64 _),
    List.take_left]

/-- The size that is written does not count its own first copy. -/
theorem toNat_size (short : (encode pairs).length ≤ View.maxBufferSize) :
    (UInt64.ofNat ((encodePairs pairs).length + footerSize)).toNat = (encode pairs).length - 8 := by
  rw [length_encode] at short ⊢
  simp only [frameSize, footerSize, View.maxBufferSize] at short ⊢
  have small : (encodePairs pairs).length + 24 < UInt64.size := by
    simp only [UInt64.size]
    omega
  rw [UInt64.toNat_ofNat_of_lt' small]
  omega

/-- A block that is written is a block that is found. -/
theorem isBlock_encode (short : (encode pairs).length ≤ View.maxBufferSize) :
    IsBlock (encode pairs) := by
  let frame := word64 (UInt64.ofNat ((encodePairs pairs).length + footerSize))
  have size := length_encode pairs
  simp only [frameSize] at size
  refine ⟨?_, short, ?_, ?_, ?_⟩
  · rw [length_encode]
    exact Nat.le_add_left ..
  · rw [← toNat_size short]
    exact field_word64 _ _
  · have place : (encode pairs).length - footerSize = (frame ++ encodePairs pairs).length + 0 := by
      simp only [frame, List.length_append, length_word64, footerSize]
      omega
    have split : encode pairs = (frame ++ encodePairs pairs) ++ (frame ++ magic) :=
      (List.append_assoc ..).symm
    show (encode pairs).field ((encode pairs).length - footerSize) 8 = _
    rw [place, ← toNat_size short, split, field_append_right]
    exact field_word64 _ _
  · have place : (frame ++ (encodePairs pairs ++ frame)).length = (encode pairs).length - 16 := by
      simp only [frame, List.length_append, length_word64]
      omega
    have split : encode pairs = (frame ++ (encodePairs pairs ++ frame)) ++ magic := by
      simp only [List.append_assoc]
      rfl
    rw [← place, split, List.drop_left]

/-- The block that is found before a directory shows all its bytes. -/
theorem exists_find_shows {apk : View} {front block back : Bytes}
    (shows : apk.Shows (front ++ (block ++ back))) (isBlock : IsBlock block) :
    ∃ found, find apk (front.length + block.length) = .ok (.found found) ∧
      found.offset = front.length ∧ found.contents.Shows block := by
  obtain ⟨found, search, offset⟩ := find_of_isBlock shows isBlock
  obtain ⟨size, framed, place, slice⟩ := framed_of_find search
  have inside := framed.inside
  have total : size + 8 = block.length := by omega
  obtain ⟨contents, slice', shown⟩ := shows.slice front.length block.length
    (by simp only [List.length_append]; omega)
  rw [offset, total] at slice
  cases slice.symm.trans slice'
  rw [List.drop_left, List.take_left] at shown
  exact ⟨found, search, offset, shown⟩

/-- The sections of an archive without a comment, in which a block stands before the directory. -/
theorem exists_locate_of_isBlock {apk : View} {front block directory : Bytes}
    {endRecord : EndRecord}
    (shows : apk.Shows (front ++ (block ++ (directory ++ endRecord.encode))))
    (isBlock : IsBlock block) (small : endRecord.isZip64 = false)
    (plain : endRecord.commentLength = 0) (none : endRecord.comment = [])
    (start : endRecord.directoryOffset.toNat = front.length + block.length)
    (size : endRecord.directorySize.toNat = directory.length) :
    ∃ sections found, Sections.locate apk = .ok sections ∧
      sections.signingBlock? = some found ∧ found.offset = front.length ∧
      found.contents.Shows block := by
  obtain ⟨found, search, offset, shown⟩ := exists_find_shows shows isBlock
  have split : front ++ (block ++ (directory ++ endRecord.encode)) =
      (front ++ (block ++ directory)) ++ endRecord.encode := by
    simp only [List.append_assoc]
  have consistent : endRecord.isConsistent = true := by
    rw [EndRecord.isConsistent, plain, none]
    rfl
  have last := EndRecord.find_of_no_comment (split ▸ shows) none consistent
  refine ⟨{
    directoryOffset := front.length + block.length
    directorySize := directory.length
    recordCount := endRecord.totalEntries.toNat
    endOffset := (front ++ (block ++ directory)).length
    endRecord := endRecord
    beforeDirectory := .found found }, found, ?_, rfl, offset, shown⟩
  refine Sections.locate_eq_ok_iff.2 ⟨last, small, start.symm, size.symm, rfl, ?_, search⟩
  simp only [List.length_append, Nat.add_assoc]

/-- The pairs of a block are the ones of which its middle consists, and otherwise it is malformed,
blamed on the first place behind pairs where no pair stands. So a block that is written before the
directory of an archive without a comment is found behind the entries, whatever these and the
directory are, and its pairs are the ones that were written. -/
theorem pairs_of_encodePairs :
    (∀ (block : SigningBlock) (bytes : Bytes), block.contents.Shows bytes →
      frameSize ≤ bytes.length → bytes.length ≤ View.maxBufferSize →
        (∀ pairs, block.pairs = .ok pairs ↔ middle bytes = encodePairs pairs) ∧
        ∀ error, block.pairs = .error error ↔ ∃ place fault, MisfitAt (middle bytes) place fault ∧
          error = .faultAt (block.offset + 8 + place) fault) ∧
      ∀ (apk : View) (entries : Bytes) (pairs : List Pair) (directory : Bytes)
        (endRecord : EndRecord),
        apk.Shows (entries ++ (encode pairs ++ (directory ++ endRecord.encode))) →
        (encode pairs).length ≤ View.maxBufferSize → endRecord.isZip64 = false →
        endRecord.commentLength = 0 → endRecord.comment = [] →
        endRecord.directoryOffset.toNat = entries.length + (encode pairs).length →
        endRecord.directorySize.toNat = directory.length →
          ∃ sections found, Sections.locate apk = .ok sections ∧
            sections.signingBlock? = some found ∧ found.offset = entries.length ∧
            found.contents.Shows (encode pairs) ∧ found.pairs = .ok pairs := by
  refine ⟨?_, ?_⟩
  · intro block bytes shows long short
    have small := length_middle_lt short
    rw [pairs_eq_parsePairs shows long short]
    exact ⟨fun _ => parsePairs_eq_ok_iff small, fun _ => parsePairs_eq_error_iff small⟩
  · intro apk entries pairs directory endRecord shows short small plain none start size
    have isBlock := isBlock_encode short
    obtain ⟨sections, found, located, reported, offset, shown⟩ :=
      exists_locate_of_isBlock shows isBlock small plain none start size
    refine ⟨sections, found, located, reported, offset, shown, ?_⟩
    rw [pairs_eq_parsePairs shown isBlock.long short]
    exact (parsePairs_eq_ok_iff (length_middle_lt short)).2 (middle_encode pairs)

/-- Two pairs, the second one without a value. -/
def samplePairs : List Pair := [⟨0x7109871A, [1, 2, 3]⟩, ⟨0, []⟩]

/-- The end record for a directory of one byte, behind one other byte and the block of these
pairs. -/
def samplePairsEnd : EndRecord where
  diskNumber := 0
  directoryDisk := 0
  diskEntries := 0
  totalEntries := 0
  directorySize := 1
  directoryOffset := 60
  commentLength := 0
  comment := []

/-- Framed bytes that begin with a pair, and go on with a length that has no room for an
identifier. -/
def sampleMisfitBlock : Bytes :=
  zeros 8 ++ ((Pair.encode ⟨0, []⟩ ++ word64 3) ++ zeros 24)

/-- The pairs of a block are found behind the entries; in the other block the second pair, at
offset 25 of the archive, is to blame. -/
theorem sample_pairs_are_found :
    let archive := [7] ++ (encode samplePairs ++ ([9] ++ samplePairsEnd.encode))
    let misfit : SigningBlock := ⟨5, View.ofBytes sampleMisfitBlock⟩
    (View.ofBytes archive).Shows archive ∧ misfit.contents.Shows sampleMisfitBlock ∧
      (∃ sections found, Sections.locate (View.ofBytes archive) = .ok sections ∧
        sections.signingBlock? = some found ∧ found.offset = 1 ∧
        found.pairs = .ok samplePairs) ∧
      misfit.pairs = .error (.faultAt 25 (.pairLengthOutOfRange 3)) := by
  intro archive misfit
  have shows := View.shows_ofBytes archive
  have shows' := View.shows_ofBytes sampleMisfitBlock
  obtain ⟨parsed, found⟩ := pairs_of_encodePairs
  refine ⟨shows, shows', ?_, ?_⟩
  · obtain ⟨sections, block, located, reported, offset, -, pairs⟩ :=
      found (View.ofBytes archive) [7] samplePairs [9] samplePairsEnd shows (by decide) rfl rfl rfl
        (by decide) (by decide)
    exact ⟨sections, block, located, reported, offset, pairs⟩
  · refine ((parsed misfit _ shows' (by decide) (by decide)).2 _).2 ⟨12, _, ?_, rfl⟩
    refine ⟨[⟨0, []⟩], word64 3, by decide, by decide, by decide, ?_⟩
    exact Misfit.outOfRange (by decide) (.inl (by decide))

end SigningBlock
end ApkArchive

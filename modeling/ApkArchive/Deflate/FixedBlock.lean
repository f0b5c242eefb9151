import ApkArchive.Deflate.Inflate

/-!
# Deflating

New entries are compressed into a single final block with the fixed code, one word for each byte
and no copies. The main statement is that inflating gives the data back and uses up the stream:

    inflate (deflate data) = (data, complete 0)
-/

namespace ApkArchive.Deflate

/-- The `width` low bits of a number, high bit first. -/
def bigEndianBits (width n : Nat) : List Bool := (List.range width).reverse.map n.testBit

/-- The word of a byte or of the end of the block (256) in the fixed code. -/
def fixedWord (s : Nat) : List Bool :=
  if s < 144 then bigEndianBits 8 (0x30 + s)
  else if s < 256 then bigEndianBits 9 (0x190 + (s - 144))
  else bigEndianBits 7 (s - 256)

/-- The bits of a final block with the fixed code that holds `data`. -/
def fixedBlock (data : Bytes) : List Bool :=
  [true, true, false] ++ data.flatMap (fun byte => fixedWord byte.toNat) ++ fixedWord 256

/-- The byte with the given bits, low bit first; missing bits are zero. -/
def packByte (bits : List Bool) : UInt8 := UInt8.ofNat (bits.foldr (fun b n => b.toNat + 2 * n) 0)

/-- Packs bits into bytes; the last byte is filled up with zeros. -/
def pack : List Bool → Bytes
  | [] => []
  | b :: bits => packByte ((b :: bits).take 8) :: pack ((b :: bits).drop 8)
termination_by bits => bits.length

/-- The compressed form of `data`. -/
def deflate (data : Bytes) : Bytes := pack (fixedBlock data)

example : deflate [] = [0x03, 0x00] := by decide +kernel

/-! ### Decoding words of the fixed code -/

/-- The decoder takes exactly `word` off a stream that begins with it, and returns `a`. -/
def Decoder.Reads (decoder : Decoder α) (word : List Bool) (a : α) : Prop :=
  ∀ bits rest, bits.toList = word ++ rest →
    ∃ left, decoder.run bits = .ok (a, left) ∧ left.toList = rest

namespace Decoder

theorem Reads.pure (a : α) : (Pure.pure a : Decoder α).Reads [] a :=
  fun bits _ h => ⟨bits, rfl, h⟩

theorem Reads.bind {decoder : Decoder α} {next : α → Decoder β} {first second : List Bool}
    {a : α} {b : β} (h : decoder.Reads first a) (hnext : (next a).Reads second b) :
    (decoder >>= next).Reads (first ++ second) b := by
  intro bits rest eq
  obtain ⟨between, run, eq⟩ := h bits (second ++ rest) (by rw [eq, List.append_assoc])
  obtain ⟨left, run', eq⟩ := hnext between rest eq
  exact ⟨left, run_bind_eq_ok.2 ⟨a, between, run, run'⟩, eq⟩

theorem reads_bit (b : Bool) : bit.Reads [b] b := by
  intro bits rest eq
  match bits with
  | ⟨_ :: pending, bytes⟩ =>
    simp only [Bits.toList, List.cons_append, List.nil_append, List.cons.injEq] at eq
    obtain ⟨rfl, eq⟩ := eq
    exact ⟨⟨pending, bytes⟩, rfl, eq⟩
  | ⟨[], byte :: bytes⟩ =>
    have split : Bits.ofByte byte = byte.toNat.testBit 0 :: (Bits.ofByte byte).tail := rfl
    simp only [Bits.toList, List.nil_append, List.flatMap_cons, List.cons_append] at eq
    rw [split, List.cons_append, List.cons.injEq] at eq
    obtain ⟨rfl, eq⟩ := eq
    exact ⟨⟨(Bits.ofByte byte).tail, bytes⟩, rfl, eq⟩
  | ⟨[], []⟩ => cases eq

theorem reads_number (word : List Bool) :
    (number word.length).Reads word (word.foldr (fun b n => b.toNat + 2 * n) 0) := by
  induction word with
  | nil => exact Reads.pure 0
  | cons b word ih =>
    have more : (number (word.length + 1)).Reads ([b] ++ (word ++ [])) _ :=
      (reads_bit b).bind (ih.bind (Reads.pure _))
    rw [List.append_nil] at more
    exact more

end Decoder

/-- The symbol whose word is exactly `word`. -/
def Code.lookup? : Code → (word : List Bool) → Option Nat
  | symbol s, [] => some s
  | fork zero one, b :: word => if b then one.lookup? word else zero.lookup? word
  | _, _ => none

theorem Code.reads_decode {code : Code} {word : List Bool} {s : Nat}
    (h : code.lookup? word = some s) : code.decode.Reads word s := by
  induction code generalizing word with
  | vacant => cases word <;> cases h
  | symbol s' =>
    cases word with
    | nil => cases h; exact Decoder.Reads.pure s
    | cons b word => cases h
  | fork zero one ihZero ihOne =>
    cases word with
    | nil => cases h
    | cons b word =>
      refine show (fork zero one).decode.Reads ([b] ++ word) s from (Decoder.reads_bit b).bind ?_
      cases b
      · exact ihZero h
      · exact ihOne h

/-- The symbol whose word is exactly `word`. -/
def CodeTable.lookup? (table : CodeTable) (word : List Bool) : Option Nat :=
  (Code.fork table.zero table.one).lookup? word

theorem CodeTable.reads_decode {table : CodeTable} {word : List Bool} {s : Nat}
    (h : table.lookup? word = some s) : table.decode.Reads word s :=
  @Code.reads_decode (.fork table.zero table.one) word s h

theorem fixedLiterals_lookup?_fixedWord :
    ∀ s < 257, fixedLiterals.lookup? (fixedWord s) = some s := by
  decide +kernel

/-! ### Packing bits -/

theorem ofByte_packByte {bits : List Bool} (h : bits.length ≤ 8) :
    Bits.ofByte (packByte bits) = bits ++ List.replicate (8 - bits.length) false := by
  match bits with
  | [] => decide
  | [a] => revert a; decide
  | [a, b] => revert a b; decide
  | [a, b, c] => revert a b c; decide
  | [a, b, c, d] => revert a b c d; decide
  | [a, b, c, d, e] => revert a b c d e; decide +kernel
  | [a, b, c, d, e, f] => revert a b c d e f; decide +kernel
  | [a, b, c, d, e, f, g] => revert a b c d e f g; decide +kernel
  | [a, b, c, d, e, f, g, i] => revert a b c d e f g i; decide +kernel
  | _ :: _ :: _ :: _ :: _ :: _ :: _ :: _ :: _ :: rest =>
    simp only [List.length_cons] at h
    omega

theorem flatMap_ofByte_pack (bits : List Bool) :
    ∃ padding < 8, (pack bits).flatMap Bits.ofByte = bits ++ List.replicate padding false := by
  fun_induction pack bits with
  | case1 => exact ⟨0, by omega, rfl⟩
  | case2 b bits ih =>
    obtain ⟨padding, lt, eq⟩ := ih
    have byte := ofByte_packByte (List.length_take_le 8 (b :: bits))
    rw [List.flatMap_cons, byte, eq]
    by_cases long : 8 ≤ (b :: bits).length
    · refine ⟨padding, lt, ?_⟩
      rw [List.length_take, Nat.min_eq_left long]
      simp only [Nat.sub_self, List.replicate_zero, List.append_nil]
      rw [← List.append_assoc, List.take_append_drop]
    · have short : (b :: bits).length ≤ 8 := by omega
      have none : (b :: bits).drop 8 = [] := List.drop_of_length_le short
      refine ⟨8 - (b :: bits).length, by simp only [List.length_cons]; omega, ?_⟩
      have zero : padding = 0 := by
        have := congrArg List.length eq
        rw [none] at this
        simpa [pack] using this.symm
      rw [List.take_of_length_le short, none, zero]
      simp

/-! ### Inflating a fixed block -/

theorem Token.reads_decode_fixedWord (byte : UInt8) :
    (Token.decode fixedLiterals fixedDistances).Reads (fixedWord byte.toNat) (.literal byte) := by
  have lt : byte.toNat < 256 := byte.toNat_lt
  have word := CodeTable.reads_decode (fixedLiterals_lookup?_fixedWord byte.toNat (by omega))
  rw [← List.append_nil (fixedWord byte.toNat)]
  refine word.bind ?_
  rw [ofSymbol, if_pos lt, UInt8.ofNat_toNat]
  exact Decoder.Reads.pure _

theorem Token.reads_decode_endOfBlock :
    (Token.decode fixedLiterals fixedDistances).Reads (fixedWord 256) .endOfBlock := by
  rw [← List.append_nil (fixedWord 256)]
  exact (CodeTable.reads_decode (fixedLiterals_lookup?_fixedWord 256 (by omega))).bind
    (Decoder.Reads.pure _)

theorem inflateTokens_fixed (before : ByteArray) (data : Bytes) {bits : Bits} {rest : List Bool}
    (h : bits.toList =
      data.flatMap (fun byte => fixedWord byte.toNat) ++ fixedWord 256 ++ rest) :
    ∃ left, inflateTokens fixedLiterals fixedDistances before bits =
      (before ++ data.toByteArray, .ok left) ∧ left.toList = rest := by
  induction data generalizing before bits with
  | nil =>
    obtain ⟨left, run, eq⟩ := Token.reads_decode_endOfBlock bits rest h
    refine ⟨left, ?_, eq⟩
    unfold inflateTokens
    split <;> simp_all
  | cons byte data ih =>
    obtain ⟨between, run, eq⟩ := Token.reads_decode_fixedWord byte bits
      (data.flatMap (fun byte => fixedWord byte.toNat) ++ fixedWord 256 ++ rest)
      (by rw [h, List.flatMap_cons]; simp only [List.append_assoc])
    obtain ⟨left, run', eq⟩ := ih (before.push byte) eq
    refine ⟨left, ?_, eq⟩
    unfold inflateTokens
    have push : before.push byte ++ data.toByteArray = before ++ (byte :: data).toByteArray := by
      apply ByteArray.ext
      simp [ByteArray.data_append, ByteArray.data_push, List.data_toByteArray]
    split <;> simp_all

theorem reads_blockHeader : blockHeader.Reads ([true] ++ ([true, false] ++ [])) (true, 1) :=
  (Decoder.reads_bit true).bind <|
    (Decoder.reads_number [true, false]).bind (Decoder.Reads.pure (true, 1))

theorem inflate_deflate (data : Bytes) :
    inflate (deflate data) = (data.toByteArray, .complete 0) := by
  obtain ⟨padding, lt, packed⟩ := flatMap_ofByte_pack (fixedBlock data)
  obtain ⟨between, header, eq⟩ := reads_blockHeader (.ofBytes (deflate data))
    (data.flatMap (fun byte => fixedWord byte.toNat) ++ fixedWord 256 ++
      List.replicate padding false)
    (by rw [Bits.toList, Bits.ofBytes, deflate, packed, fixedBlock]
        simp only [List.nil_append, List.append_assoc, List.cons_append])
  obtain ⟨left, tokens, eq⟩ := inflateTokens_fixed .empty data eq
  have none : left.rest = [] := by
    have short := congrArg List.length eq
    match bytes : left.rest with
    | [] => rfl
    | byte :: rest =>
      simp only [Bits.toList, bytes, List.flatMap_cons, List.length_append, Bits.ofByte,
        List.length_map, List.length_range, List.length_replicate] at short
      omega
  rw [inflate, inflateBlocks]
  split
  · simp_all
  · next final kind next run =>
    rw [header] at run
    cases run
    have block : inflateBlock 1 .empty between = (data.toByteArray, .ok left) := by
      rw [inflateBlock, tokens, ByteArray.empty_append]
    split
    · simp_all
    · simp_all

end ApkArchive.Deflate

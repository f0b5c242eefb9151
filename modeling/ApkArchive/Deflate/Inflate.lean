import ApkArchive.Deflate.Code

/-!
# Inflating

`inflate` decodes a DEFLATE stream (RFC 1951). It always returns the data that can be decoded,
together with how the decoding ended: after the final block, with so many bytes left over; at the
end of a truncated stream; or where the stream is corrupt.
-/

namespace ApkArchive.Deflate

/-- A piece of a compressed block. -/
inductive Token
  /-- A byte. -/
  | literal (byte : UInt8)
  /-- `length` bytes that stand `distance` bytes before the end of the data. -/
  | copy (length distance : Nat)
  | endOfBlock
  deriving DecidableEq, Repr

namespace Token

/-- The shortest length and the number of extra bits of the symbols from 257 on. -/
def lengths : List (Nat × Nat) :=
  [(3, 0), (4, 0), (5, 0), (6, 0), (7, 0), (8, 0), (9, 0), (10, 0), (11, 1), (13, 1), (15, 1),
    (17, 1), (19, 2), (23, 2), (27, 2), (31, 2), (35, 3), (43, 3), (51, 3), (59, 3), (67, 4),
    (83, 4), (99, 4), (115, 4), (131, 5), (163, 5), (195, 5), (227, 5), (258, 0)]

/-- The shortest distance and the number of extra bits of the distance symbols. -/
def distances : List (Nat × Nat) :=
  [(1, 0), (2, 0), (3, 0), (4, 0), (5, 1), (7, 1), (9, 2), (13, 2), (17, 3), (25, 3), (33, 4),
    (49, 4), (65, 5), (97, 5), (129, 6), (193, 6), (257, 7), (385, 7), (513, 8), (769, 8),
    (1025, 9), (1537, 9), (2049, 10), (3073, 10), (4097, 11), (6145, 11), (8193, 12), (12289, 12),
    (16385, 13), (24577, 13)]

/-- A value of a table of lengths or distances: its base and as many extra bits as it has. -/
def value (table : List (Nat × Nat)) (index : Nat) : Decoder Nat :=
  match table[index]? with
  | none => Decoder.corrupt
  | some (base, extra) => do return base + (← Decoder.number extra)

/-- What a literal symbol means; a length is followed by a distance. -/
def ofSymbol (distanceTable : CodeTable) (s : Nat) : Decoder Token :=
  if s < 256 then pure (.literal (UInt8.ofNat s))
  else if s = 256 then pure .endOfBlock
  else do
    let length ← value lengths (s - 257)
    let distance ← value distances (← distanceTable.decode)
    return .copy length distance

/-- The next piece of a block. -/
def decode (literalTable distanceTable : CodeTable) : Decoder Token := do
  ofSymbol distanceTable (← literalTable.decode)

theorem shrinks_value (table : List (Nat × Nat)) (index : Nat) : (value table index).Shrinks := by
  unfold value
  split
  · exact Decoder.shrinks_corrupt
  · exact (Decoder.shrinks_number _).bind fun _ => Decoder.shrinks_pure _

theorem shrinks_ofSymbol (distanceTable : CodeTable) (s : Nat) :
    (ofSymbol distanceTable s).Shrinks := by
  unfold ofSymbol
  split
  · exact Decoder.shrinks_pure _
  split
  · exact Decoder.shrinks_pure _
  · exact (shrinks_value _ _).bind fun _ => distanceTable.consumes_decode.shrinks.bind fun _ =>
      (shrinks_value _ _).bind fun _ => Decoder.shrinks_pure _

theorem consumes_decode (literalTable distanceTable : CodeTable) :
    (decode literalTable distanceTable).Consumes :=
  literalTable.consumes_decode.bind fun _ => shrinks_ofSymbol _ _

end Token

/-- The data decoded so far, and either what is left of the stream or why decoding stopped. -/
abbrev Progress := ByteArray × Except Stop Bits

/-- Repeats `length` bytes that stand `distance` bytes before the end of `data`. -/
def copyBack (data : ByteArray) (distance : Nat) : (length : Nat) → ByteArray
  | 0 => data
  | length + 1 =>
    copyBack (data.push (if h : data.size - distance < data.size then data[data.size - distance]
      else 0)) distance length

/-- Decodes the pieces of a block and appends their data. -/
def inflateTokens (literalTable distanceTable : CodeTable) (data : ByteArray) (bits : Bits) :
    Progress :=
  match _step : (Token.decode literalTable distanceTable).run bits with
  | .error stop => (data, .error stop)
  | .ok (.endOfBlock, left) => (data, .ok left)
  | .ok (.literal byte, left) =>
    inflateTokens literalTable distanceTable (data.push byte) left
  | .ok (.copy length distance, left) =>
    if distance ≤ data.size then
      inflateTokens literalTable distanceTable (copyBack data distance length) left
    else (data, .error .corrupt)
termination_by bits.count
decreasing_by all_goals exact Token.consumes_decode _ _ _ _ _ (by assumption)

theorem inflateTokens_count_le {literalTable distanceTable : CodeTable} {data : ByteArray}
    {bits left : Bits} (h : (inflateTokens literalTable distanceTable data bits).2 = .ok left) :
    left.count ≤ bits.count := by
  fun_induction inflateTokens literalTable distanceTable data bits with
  | case1 => cases h
  | case2 data bits left' step =>
    cases h
    exact Nat.le_of_lt (Token.consumes_decode _ _ _ _ _ step)
  | case3 data bits byte left' step ih =>
    exact Nat.le_trans (ih h) (Nat.le_of_lt (Token.consumes_decode _ _ _ _ _ step))
  | case4 data bits length distance left' step _ ih =>
    exact Nat.le_trans (ih h) (Nat.le_of_lt (Token.consumes_decode _ _ _ _ _ step))
  | case5 => cases h

/-! ### The kinds of block -/

/-- The size of a stored block: after the current byte, two bytes and their complement. -/
def storedSize : Decoder Nat := do
  Decoder.align
  let size ← Decoder.number 16
  let complement ← Decoder.number 16
  if size + complement = 0xFFFF then pure size else Decoder.corrupt

/-- The data of a stored block: as many bytes as its size says. -/
def inflateStored (data : ByteArray) (bits : Bits) : Progress :=
  match storedSize.run bits with
  | .error stop => (data, .error stop)
  | .ok (size, left) =>
    let stored := left.rest.take size
    let data := data ++ stored.toByteArray
    if stored.length = size then (data, .ok ⟨left.pending, left.rest.drop size⟩)
    else (data, .error .truncated)

/-- The lengths of the words of the fixed code for literals. -/
def fixedLiteralLengths : List Nat :=
  List.replicate 144 8 ++ List.replicate 112 9 ++ List.replicate 24 7 ++ List.replicate 8 8

/-- The lengths of the words of the fixed code for distances. -/
def fixedDistanceLengths : List Nat := List.replicate 32 5

/-- The fixed code for literals. -/
def fixedLiterals : CodeTable := .ofLengths fixedLiteralLengths

/-- The fixed code for distances. -/
def fixedDistances : CodeTable := .ofLengths fixedDistanceLengths

/-- The order in which a block sends the lengths of the code for code lengths. -/
def lengthOrder : List Nat := [16, 17, 18, 0, 8, 7, 9, 6, 10, 5, 11, 4, 12, 3, 13, 2, 14, 1, 15]

/-- What a symbol of the code for code lengths means: a length, and how many more words after the
first one have it. `previous` is the length of the word before. -/
def lengthRun (previous : Option Nat) (s : Nat) : Decoder (Nat × Nat) :=
  if s < 16 then pure (s, 0)
  else if s = 16 then do
    let more ← Decoder.number 2
    match previous with
    | none => Decoder.corrupt
    | some length => pure (length, 2 + more)
  else if s = 17 then do return (0, 2 + (← Decoder.number 3))
  else do return (0, 10 + (← Decoder.number 7))

/-- The lengths of `wanted` words; `previous` is the length of the word before them. -/
def decodeLengths (table : CodeTable) (previous : Option Nat) (wanted : Nat) :
    Decoder (List Nat) :=
  if wanted = 0 then pure []
  else do
    let (length, more) ← lengthRun previous (← table.decode)
    if more < wanted then
      return List.replicate (more + 1) length ++
        (← decodeLengths table (some length) (wanted - (more + 1)))
    else Decoder.corrupt
termination_by wanted

/-- The code with words of the given lengths. Unless `sparse` is allowed it must be complete;
a sparse code has at most one word, of one bit. -/
def codeTable (sparse : Bool) (lengths : List Nat) : Decoder CodeTable :=
  let table := CodeTable.ofLengths lengths
  if CodeTable.fits lengths && (table.isComplete || sparse && lengths.all (· ≤ 1)) then pure table
  else Decoder.corrupt

/-- The code for code lengths that a block sends; it sends the lengths of `sent` words. -/
def lengthTable (sent : Nat) : Decoder CodeTable := do
  let lengths ← Decoder.numbers 3 sent
  codeTable false <| (List.range 19).map fun s => ((lengthOrder.zip lengths).lookup s).getD 0

/-- The codes that a block sends, for literals and for distances, given how many words each has. -/
def sentTables (literals distances sent : Nat) : Decoder (CodeTable × CodeTable) := do
  let table ← lengthTable sent
  let lengths ← decodeLengths table none (literals + distances)
  if lengths[256]?.getD 0 = 0 then Decoder.corrupt
  else
    let literalTable ← codeTable true (lengths.take literals)
    let distanceTable ← codeTable true (lengths.drop literals)
    return (literalTable, distanceTable)

/-- The codes that a block sends, for literals and for distances. -/
def dynamicTables : Decoder (CodeTable × CodeTable) := do
  let literals ← Decoder.number 5
  let distances ← Decoder.number 5
  let sent ← Decoder.number 4
  if 286 < 257 + literals || 30 < 1 + distances then Decoder.corrupt
  else sentTables (257 + literals) (1 + distances) (4 + sent)

/-- The data of a block of the given kind. -/
def inflateBlock (kind : Nat) (data : ByteArray) (bits : Bits) : Progress :=
  match kind with
  | 0 => inflateStored data bits
  | 1 => inflateTokens fixedLiterals fixedDistances data bits
  | 2 =>
    match dynamicTables.run bits with
    | .error stop => (data, .error stop)
    | .ok ((literalTable, distanceTable), left) =>
      inflateTokens literalTable distanceTable data left
  | _ => (data, .error .corrupt)

/-! ### What is left becomes less -/

theorem shrinks_storedSize : storedSize.Shrinks := by
  refine Decoder.shrinks_align.bind fun _ => (Decoder.shrinks_number 16).bind fun _ =>
    (Decoder.shrinks_number 16).bind fun _ => ?_
  split
  · exact Decoder.shrinks_pure _
  · exact Decoder.shrinks_corrupt

theorem inflateStored_count_le {data : ByteArray} {bits left : Bits}
    (h : (inflateStored data bits).2 = .ok left) : left.count ≤ bits.count := by
  unfold inflateStored at h
  split at h
  · cases h
  · next size between run =>
    have shorter := shrinks_storedSize _ _ _ run
    simp only at h
    split at h
    · cases h
      simp only [Bits.count, List.length_drop] at shorter ⊢
      omega
    · cases h

theorem shrinks_lengthRun (previous : Option Nat) (s : Nat) : (lengthRun previous s).Shrinks := by
  unfold lengthRun
  split
  · exact Decoder.shrinks_pure _
  split
  · refine (Decoder.shrinks_number 2).bind fun _ => ?_
    split
    · exact Decoder.shrinks_corrupt
    · exact Decoder.shrinks_pure _
  split
  · exact (Decoder.shrinks_number 3).bind fun _ => Decoder.shrinks_pure _
  · exact (Decoder.shrinks_number 7).bind fun _ => Decoder.shrinks_pure _

theorem shrinks_decodeLengths (table : CodeTable) (previous : Option Nat) (wanted : Nat) :
    (decodeLengths table previous wanted).Shrinks := by
  induction wanted using Nat.strongRecOn generalizing previous with
  | ind wanted ih =>
    unfold decodeLengths
    split
    · exact Decoder.shrinks_pure []
    · refine table.consumes_decode.shrinks.bind fun s => (shrinks_lengthRun _ _).bind
        fun (length, more) => ?_
      simp only
      split
      · exact (ih _ (by omega) _).bind fun _ => Decoder.shrinks_pure _
      · exact Decoder.shrinks_corrupt

theorem shrinks_codeTable (sparse : Bool) (lengths : List Nat) :
    (codeTable sparse lengths).Shrinks := by
  unfold codeTable
  simp only
  split
  · exact Decoder.shrinks_pure _
  · exact Decoder.shrinks_corrupt

theorem shrinks_sentTables (literals distances sent : Nat) :
    (sentTables literals distances sent).Shrinks := by
  refine ((Decoder.shrinks_numbers 3 sent).bind fun _ => shrinks_codeTable _ _).bind fun _ =>
    (shrinks_decodeLengths _ _ _).bind fun lengths => ?_
  split
  · exact Decoder.shrinks_corrupt
  · exact (shrinks_codeTable _ _).bind fun _ => (shrinks_codeTable _ _).bind fun _ =>
      Decoder.shrinks_pure _

theorem shrinks_dynamicTables : dynamicTables.Shrinks := by
  refine (Decoder.shrinks_number 5).bind fun _ => (Decoder.shrinks_number 5).bind fun _ =>
    (Decoder.shrinks_number 4).bind fun _ => ?_
  split
  · exact Decoder.shrinks_corrupt
  · exact shrinks_sentTables _ _ _

theorem inflateBlock_count_le {kind : Nat} {data : ByteArray} {bits left : Bits}
    (h : (inflateBlock kind data bits).2 = .ok left) : left.count ≤ bits.count := by
  unfold inflateBlock at h
  split at h
  · exact inflateStored_count_le h
  · exact inflateTokens_count_le h
  · split at h
    · cases h
    · next run =>
      exact Nat.le_trans (inflateTokens_count_le h) (shrinks_dynamicTables _ _ _ run)
  · cases h

/-! ### Whole streams -/

/-- How the decoding of a stream ended. -/
inductive Ending
  /-- After the final block, with so many bytes left over. -/
  | complete (left : Nat)
  | truncated
  | corrupt
  deriving DecidableEq, Repr

/-- A decoder that cannot go on ends the stream. -/
def Stop.ending : Stop → Ending
  | truncated => .truncated
  | corrupt => .corrupt

/-- The header of a block: whether it is the final one, and its kind. -/
def blockHeader : Decoder (Bool × Nat) := do
  let final ← Decoder.bit
  let kind ← Decoder.number 2
  return (final, kind)

theorem consumes_blockHeader : blockHeader.Consumes :=
  Decoder.consumes_bit.bind fun _ => (Decoder.shrinks_number 2).bind fun _ =>
    Decoder.shrinks_pure _

/-- Decodes the blocks of a stream and appends their data. -/
def inflateBlocks (data : ByteArray) (bits : Bits) : ByteArray × Ending :=
  match _header : blockHeader.run bits with
  | .error stop => (data, stop.ending)
  | .ok ((final, kind), left) =>
    match _block : inflateBlock kind data left with
    | (data, .error stop) => (data, stop.ending)
    | (data, .ok left) =>
      if final then (data, .complete left.rest.length) else inflateBlocks data left
termination_by bits.count
decreasing_by
  have := consumes_blockHeader _ _ _ _header
  have := inflateBlock_count_le (congrArg Prod.snd _block)
  omega

/-- The data of a DEFLATE stream, as far as it can be decoded, and how its decoding ended. -/
def inflate (stream : Bytes) : ByteArray × Ending := inflateBlocks .empty (.ofBytes stream)

end ApkArchive.Deflate

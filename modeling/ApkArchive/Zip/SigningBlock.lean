import ApkArchive.Bytes.Reader
import ApkArchive.Storage.View

/-!
# Signing blocks

A signing block may stand right before the directory. It is framed by its size, once at its
start and once before the magic at its end; the size does not count its own first copy. Between
the frame stand pairs of an identifier and a value. What stands before a directory and looks like
a block, but has an impossible or contradictory size, is not one; that is no error.

    parsePairs offset bytes = ok pairs ↔ bytes = encodePairs pairs
-/

namespace ApkArchive

/-- A signing block in an archive. -/
structure SigningBlock where
  /-- Where in the archive it begins. -/
  offset : Nat
  /-- The whole block, frame included. -/
  contents : View

namespace SigningBlock

/-- The last 16 bytes of a block: "APK Sig Block 42". -/
def magic : Bytes :=
  [0x41, 0x50, 0x4B, 0x20, 0x53, 0x69, 0x67, 0x20, 0x42, 0x6C, 0x6F, 0x63, 0x6B, 0x20, 0x34, 0x32]

/-- The size of the second copy of the size, together with the magic. -/
def footerSize : Nat := 24

/-- The size of a block without pairs. -/
def frameSize : Nat := 32

/-- Why something that ends in the magic is no block. -/
inductive Flaw
  /-- The size cannot be the size of a block. -/
  | sizeOutOfRange (size : Nat)
  /-- The block would begin before the archive. -/
  | startsBeforeFile (size : Nat)
  /-- The two copies of the size differ. -/
  | sizesDiffer (header footer : Nat)
  deriving DecidableEq, Repr

/-- What stands before a directory. -/
inductive Search
  /-- Nothing that ends in the magic. -/
  | absent
  /-- Something that ends in the magic but is no block. -/
  | ignored (flaw : Flaw)
  | found (block : SigningBlock)

/-- Looks for the block that ends where the directory begins. -/
def find (apk : View) (directoryOffset : Nat) : Except Error Search := do
  if directoryOffset < frameSize then return .absent
  let footer ← apk.read (directoryOffset - footerSize) footerSize
  if footer.drop 8 ≠ magic then return .absent
  let size := LittleEndian.decode (footer.take 8)
  if size < footerSize || View.maxBufferSize - 8 < size then
    return .ignored (.sizeOutOfRange size)
  let total := size + 8
  if directoryOffset < total then return .ignored (.startsBeforeFile total)
  let start := directoryOffset - total
  let header ← apk.read start 8
  let sizeInHeader := LittleEndian.decode header
  if sizeInHeader ≠ size then return .ignored (.sizesDiffer sizeInHeader size)
  return .found ⟨start, ← apk.slice start total⟩

/-- An identifier and a value. -/
structure Pair where
  id : UInt32
  value : Bytes
  deriving DecidableEq, Repr

/-- The bytes of a pair: its length, which does not count itself, the identifier, the value. -/
def Pair.encode (pair : Pair) : Bytes :=
  Bytes.word64 (UInt64.ofNat (4 + pair.value.length)) ++ (Bytes.word32 pair.id ++ pair.value)

/-- The bytes of a sequence of pairs. -/
def encodePairs (pairs : List Pair) : Bytes := pairs.flatMap Pair.encode

/-- The pair with which a buffer begins, and what follows it. -/
def parsePair (bytes : Bytes) : Except Fault (Pair × Bytes) :=
  match Reader.word64.run bytes with
  | none => .error .pairLengthCutOff
  | some (length, rest) =>
    match (Reader.take length.toNat).run rest with
    | none => .error (.pairLengthOutOfRange length.toNat)
    | some (body, rest) =>
      match Reader.word32.run body with
      | none => .error (.pairLengthOutOfRange length.toNat)
      | some (id, value) => .ok (⟨id, value⟩, rest)

theorem length_parsePair_lt {bytes rest : Bytes} {pair : Pair}
    (h : parsePair bytes = .ok (pair, rest)) : rest.length < bytes.length := by
  unfold parsePair at h
  split at h
  · cases h
  · next length left first =>
    rw [Reader.word64_run_eq_some_iff] at first
    split at h
    · cases h
    · next body left' second =>
      obtain ⟨rfl, _⟩ := Reader.take_run_eq_some_iff.1 second
      split at h
      · cases h
      · cases h
        rw [first]
        simp only [List.length_append, Bytes.length_word64]
        omega

/-- The pairs of which a buffer consists; it begins at `offset` in the archive. -/
def parsePairs (offset : Nat) (bytes : Bytes) : Except Error (List Pair) :=
  if bytes = [] then .ok []
  else
    match _run : parsePair bytes with
    | .error fault => .error (.faultAt offset fault)
    | .ok (pair, rest) => do return pair :: (← parsePairs (offset + pair.encode.length) rest)
termination_by bytes.length
decreasing_by exact length_parsePair_lt _run

/-- The pairs of a block, in order. -/
def pairs (block : SigningBlock) : Except Error (List Pair) := do
  let size := block.contents.size
  if size < frameSize then throw (.faultAt block.offset (.signingBlockTooSmall size))
  parsePairs (block.offset + 8) (← block.contents.read 8 (size - frameSize))

/-- The bytes of a block with the given pairs. -/
def encode (pairs : List Pair) : Bytes :=
  let body := encodePairs pairs
  let size := Bytes.word64 (UInt64.ofNat (body.length + footerSize))
  size ++ (body ++ (size ++ magic))

end SigningBlock
end ApkArchive

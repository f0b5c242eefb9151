import ApkArchive.Storage.View

/-!
# Outputs that can be read back

An output grows at its end and can be looked at while it grows: a snapshot shows the bytes that
had been taken when it was made, however much is written later. An output in memory copies them.
An output file collects small writes in a buffer, which is emptied into the file before a snapshot
is made; the snapshot then needs only to remember the size that the file has.
-/

namespace ApkArchive

/-- A file that is being written through a buffer. -/
structure BufferedFile where
  /-- What has reached the file. -/
  stored : ByteArray := .empty
  /-- What has not. -/
  pending : ByteArray := .empty
  /-- How many bytes have been taken. -/
  written : Nat := 0
  /-- How many bytes the file takes at most in one write, given its size. -/
  stride : Nat → Nat := fun _ => 0x7FFFF000
  /-- A write of something is never in vain. -/
  advances : ∀ size, 0 < stride size := by exact fun _ => Nat.le_of_ble_eq_true rfl

namespace BufferedFile

/-- The size of the buffer. -/
def capacity : Nat := 65536

/-- Empties the buffer into the file. -/
def flush (file : BufferedFile) : BufferedFile :=
  { file with stored := file.stored ++ file.pending, pending := .empty }

/-- Offers bytes to the file and says how many of them it has taken. Bytes go into the buffer, which
is emptied first if there is no room for them. As many as the buffer can hold go past it, and the
file may take only the first few of them. -/
def write (file : BufferedFile) (chunk : ByteArray) : BufferedFile × Nat :=
  let file := if capacity < file.pending.size + chunk.size then file.flush else file
  if capacity ≤ chunk.size then
    let taken := min chunk.size (file.stride file.stored.size)
    ({ file with
        stored := file.stored ++ chunk.extract 0 taken
        written := file.written + taken }, taken)
  else
    ({ file with
        pending := file.pending ++ chunk
        written := file.written + chunk.size }, chunk.size)

theorem write_advances (file : BufferedFile) {chunk : ByteArray} (some_left : chunk.size ≠ 0) :
    0 < (file.write chunk).2 := by
  unfold write
  dsimp only
  split
  · exact Nat.lt_min.2 ⟨Nat.pos_of_ne_zero some_left, BufferedFile.advances _ _⟩
  · exact Nat.pos_of_ne_zero some_left

/-- Takes all bytes of a chunk, in as many writes as it needs. -/
def consume (file : BufferedFile) (chunk : ByteArray) : BufferedFile :=
  if chunk.size = 0 then file
  else
    let after := file.write chunk
    after.1.consume (chunk.extract after.2 chunk.size)
termination_by chunk.size
decreasing_by
  have := file.write_advances ‹_›
  rw [ByteArray.size_extract]
  omega

/-- The number of bytes taken so far. -/
def position (file : BufferedFile) : Nat := file.written

end BufferedFile

/-- An output that can be read back. -/
inductive Output
  | memory (contents : ByteArray)
  | file (file : BufferedFile)

/-- What the output was at some moment. -/
inductive Snapshot
  | copy (contents : ByteArray)
  | extent (size : Nat)

namespace Output

/-- Takes a write. -/
def consume (chunk : ByteArray) : Output → Output
  | memory contents => memory (contents ++ chunk)
  | file f => file (f.consume chunk)

/-- Passes on what is only buffered. -/
def flush : Output → Output
  | memory contents => memory contents
  | file f => file f.flush

/-- The number of bytes taken so far. -/
def position : Output → Nat
  | memory contents => contents.size
  | file f => f.position

/-- Makes a snapshot. -/
def snapshot : Output → Output × Snapshot
  | memory contents => (memory contents, .copy contents)
  | file f => (file f.flush, .extent f.flush.stored.size)

/-- What a snapshot shows; a snapshot of a file is read from the file as it is now. -/
def view (output : Output) : Snapshot → View
  | .copy contents => .ofByteArray contents
  | .extent size =>
    match output with
    | memory contents => .ofStore (.ofFile size contents)
    | file f => .ofStore (.ofFile size f.stored)

/-- All bytes taken so far. -/
def contents : Output → ByteArray
  | memory contents => contents
  | file f => f.flush.stored

end Output
end ApkArchive

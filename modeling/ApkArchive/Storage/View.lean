import ApkArchive.Storage.Store
import ApkArchive.Storage.Sink

/-!
# Views

A view is a range of a store. It carries the proof that it lies inside the store, so whatever is
read through it does too. Requests are relative to the view and are checked before anything else:

    slice offset size = ok … ↔ offset + size ≤ view.size

A range can be read into a buffer or streamed into a sink. Streaming goes in chunks of 64 KiB,
whether the store lies in memory or has to be read.
-/

namespace ApkArchive

/-- A range of a store. -/
structure View where
  store : Store
  offset : Nat
  size : Nat
  inside : offset + size ≤ store.size

namespace View

/-- The size of a chunk when a range is streamed. -/
def chunkSize : Nat := 65536

/-- The size of the largest buffer. -/
def maxBufferSize : Nat := 0x7FFFFFFF

/-- All of a store. -/
def ofStore (store : Store) : View where
  store
  offset := 0
  size := store.size
  inside := by omega

/-- All of a buffer. -/
def ofBytes (data : Bytes) : View := ofStore (.ofBytes data)

/-- All of a buffer. -/
def ofByteArray (data : ByteArray) : View := ofStore (.ofByteArray data)

/-- The view as its debug output shows it; the offset is the one in the store. -/
def describe (view : View) : String :=
  s!"DataSource \x7b offset: {view.offset}, size: {view.size} \x7d"

/-- Whether a range lies inside the view. -/
def checkRange (view : View) (offset size : Nat) : Except Error Unit :=
  if offset + size ≤ view.size then .ok () else .error (.range offset size view.size)

/-- The range of `size` bytes at `offset` as a view of its own. -/
def slice (view : View) (offset size : Nat) : Except Error View :=
  if fits : offset + size ≤ view.size then
    .ok ⟨view.store, view.offset + offset, size, by have := view.inside; omega⟩
  else .error (.range offset size view.size)

/-- The bytes of a range. -/
def copy (view : View) (offset size : Nat) : Except Error Bytes := do
  view.checkRange offset size
  view.store.readExact (view.offset + offset) size

/-- The bytes of a range, which must not be larger than a buffer may be. -/
def read (view : View) (offset size : Nat) : Except Error Bytes := do
  view.checkRange offset size
  if size > maxBufferSize then throw (.range offset size view.size)
  view.store.readExact (view.offset + offset) size

/-- All bytes of the view. -/
def toBytes (view : View) : Except Error Bytes := view.read 0 view.size

/-- The ranges of at most 64 KiB into which a range is cut: offsets and sizes. -/
def chunks (start size : Nat) : List (Nat × Nat) :=
  if size = 0 then []
  else (start, min chunkSize size) :: chunks (start + chunkSize) (size - chunkSize)
termination_by size
decreasing_by simp only [chunkSize]; omega

/-- Streams a range into a sink, chunk by chunk. A store in memory that does not hold all of the
range fails before the first chunk; any other store fails at the chunk that it cannot fill. -/
def feed (view : View) (offset size : Nat) : Emit Unit := do
  ofExcept (view.checkRange offset size)
  let start := view.offset + offset
  if view.store.contiguous && size ≠ 0 && view.store.held < start + size then
    throw (.storage (.endedEarly start))
  (chunks start size).forM fun (first, n) => do
    if view.store.contiguous then Sink.write (view.store.bytes first n)
    else Sink.write (← ofExcept (view.store.readExact first n))

end View
end ApkArchive

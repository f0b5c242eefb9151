import ApkArchive.Bytes
import ApkArchive.Error

/-!
# Stores

A store is where the bytes of an archive live: memory, a file, anything that can be read at an
offset. It says how many bytes it has; it may hold fewer, and then a read that needs a missing
byte fails instead of making one up. One read may deliver fewer bytes than were asked for, so
`readExact` goes on reading until it has them all:

    the range is held → readExact offset n = ok (bytes offset n)
-/

namespace ApkArchive

/-- A readable sequence of bytes. -/
structure Store where
  /-- How many bytes the store says it has. -/
  size : Nat
  /-- How many bytes, from the start, it can deliver. -/
  held : Nat
  /-- The byte at an offset. -/
  byte : Nat → UInt8
  /-- Whether the store lies in memory as a whole, so that a range of it needs no reading. -/
  contiguous : Bool
  /-- How many bytes one read at an offset delivers at most. -/
  stride : Nat → Nat
  /-- A read delivers nothing only at the end of the data. -/
  advances : ∀ offset, offset < held → 0 < stride offset

namespace Store

/-- A buffer in memory that says it has `size` bytes. -/
def ofByteArrayClaiming (size : Nat) (data : ByteArray) : Store where
  size := size
  held := data.size
  byte i := if h : i < data.size then data[i] else 0
  contiguous := true
  stride _ := data.size
  advances _ := Nat.zero_lt_of_lt

/-- A buffer in memory. -/
def ofByteArray (data : ByteArray) : Store := ofByteArrayClaiming data.size data

/-- A buffer in memory. -/
def ofBytes (data : Bytes) : Store := ofByteArray data.toByteArray

/-- A file of which the first `size` bytes are visible, read in one go. -/
def ofFile (size : Nat) (contents : ByteArray) : Store :=
  { ofByteArrayClaiming size contents with
    held := min size contents.size
    contiguous := false
    advances := fun _ held => by
      simp only [ofByteArrayClaiming]
      omega }

/-- A file that delivers at most `step` bytes per read; with a step of zero it delivers nothing. -/
def trickling (step size : Nat) (contents : ByteArray) : Store :=
  { ofFile size contents with
    held := if step = 0 then 0 else contents.size
    stride := fun _ => step
    advances := fun _ held => by
      split at held
      · cases held
      · omega }

/-- `size` bytes, zero except where a patch lies over them; a later patch covers an earlier one. -/
def sparse (size : Nat) (patches : List (Nat × ByteArray)) : Store where
  size := size
  held := size
  byte i := patches.foldl (fun byte (start, patch) =>
    if h : start ≤ i ∧ i - start < patch.size then patch[i - start] else byte) 0
  contiguous := false
  stride _ := size
  advances _ := Nat.zero_lt_of_lt

/-- The `n` bytes from `offset` on. -/
def bytes (store : Store) (offset n : Nat) : Bytes := (List.range' offset n).map store.byte

@[simp] theorem length_bytes (store : Store) (offset n : Nat) :
    (store.bytes offset n).length = n := by
  simp [bytes]

theorem bytes_append (store : Store) (offset m n : Nat) :
    store.bytes offset m ++ store.bytes (offset + m) n = store.bytes offset (m + n) := by
  rw [bytes, bytes, bytes, ← List.map_append, ← List.range'_append_1]

/-- How many bytes one read of `n` bytes at `offset` delivers; zero at the end of the data. -/
def delivered (store : Store) (offset n : Nat) : Nat :=
  min n (min (store.held - offset) (store.stride offset))

theorem delivered_le (store : Store) (offset n : Nat) : store.delivered offset n ≤ n :=
  Nat.min_le_left ..

/-- Reads `n` bytes from `offset` on and appends them to `front`. -/
def readOnto (store : Store) (front : Array UInt8) (offset n : Nat) : Except Error Bytes :=
  if n = 0 then .ok front.toList
  else
    let got := store.delivered offset n
    if got = 0 then .error (.storage (.endedEarly offset))
    else readOnto store (front ++ store.bytes offset got) (offset + got) (n - got)
termination_by n
decreasing_by omega

/-- The `n` bytes from `offset` on, in as many reads as it takes. -/
def readExact (store : Store) (offset n : Nat) : Except Error Bytes :=
  store.readOnto #[] offset n

theorem readOnto_of_held {store : Store} {offset n : Nat} (front : Array UInt8)
    (held : offset + n ≤ store.held) :
    store.readOnto front offset n = .ok (front.toList ++ store.bytes offset n) := by
  fun_induction readOnto store front offset n with
  | case1 => simp [bytes]
  | case2 front offset n _ got stuck =>
    have : 0 < store.stride offset := store.advances offset (by omega)
    simp only [got, delivered] at stuck
    omega
  | case3 front offset n _ got _ ih =>
    have le : got ≤ n := store.delivered_le offset n
    rw [ih (by omega)]
    simp only [Array.toList_appendList, List.append_assoc, store.bytes_append]
    rw [Nat.add_sub_of_le le]

theorem readExact_of_held {store : Store} {offset n : Nat} (held : offset + n ≤ store.held) :
    store.readExact offset n = .ok (store.bytes offset n) := by
  simp [readExact, readOnto_of_held #[] held]

end Store
end ApkArchive

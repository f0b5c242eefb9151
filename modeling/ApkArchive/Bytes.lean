/-!
# Byte strings

Every buffer of the library is a list of bytes. Numbers inside it are little-endian and of a
fixed width: `encode` writes one, `decode` reads one, and each undoes the other.

    decode (encode w n) = n % capacity w
    encode bs.length (decode bs) = bs
-/

namespace ApkArchive

/-- A buffer. -/
abbrev Bytes := List UInt8

namespace Bytes

/-- A run of `n` zero bytes. -/
def zeros (n : Nat) : Bytes := List.replicate n 0

@[simp] theorem length_zeros (n : Nat) : (zeros n).length = n := List.length_replicate

/-- The first `n` bytes and the rest, provided that there are `n`. -/
def split? (n : Nat) (bytes : Bytes) : Option (Bytes × Bytes) :=
  let front := bytes.take n
  if front.length = n then some (front, bytes.drop n) else none

theorem split?_eq_some_iff {n : Nat} {bytes front rest : Bytes} :
    split? n bytes = some (front, rest) ↔ bytes = front ++ rest ∧ front.length = n := by
  constructor
  · intro h
    simp only [split?] at h
    split at h
    · next hn =>
      cases h
      exact ⟨(List.take_append_drop n bytes).symm, hn⟩
    · cases h
  · rintro ⟨rfl, rfl⟩
    simp [split?]

theorem split?_eq_none_iff {n : Nat} {bytes : Bytes} :
    split? n bytes = none ↔ bytes.length < n := by
  simp only [split?, List.length_take]
  split <;> simp <;> omega

end Bytes

namespace LittleEndian

/-- How many numbers fit into `width` bytes. -/
def capacity : (width : Nat) → Nat
  | 0 => 1
  | width + 1 => 256 * capacity width

/-- The `width` low bytes of a number, least significant first. -/
def encode : (width value : Nat) → Bytes
  | 0, _ => []
  | width + 1, value => UInt8.ofNat value :: encode width (value / 256)

/-- The number that a byte string stands for, least significant byte first. -/
def decode : Bytes → Nat
  | [] => 0
  | byte :: rest => byte.toNat + 256 * decode rest

@[simp] theorem length_encode (width value : Nat) : (encode width value).length = width := by
  induction width generalizing value with
  | zero => rfl
  | succ width ih => simp [encode, ih]

theorem decode_lt (bytes : Bytes) : decode bytes < capacity bytes.length := by
  induction bytes with
  | nil => exact Nat.zero_lt_one
  | cons byte rest ih =>
    have : byte.toNat < 256 := byte.toNat_lt
    simp only [decode, List.length_cons, capacity]
    omega

theorem decode_encode (width value : Nat) :
    decode (encode width value) = value % capacity width := by
  induction width generalizing value with
  | zero => simp [encode, decode, capacity, Nat.mod_one]
  | succ width ih =>
    simp only [encode, decode, ih, UInt8.toNat_ofNat', capacity]
    rw [Nat.mod_mul]

theorem decode_encode_of_lt {width value : Nat} (h : value < capacity width) :
    decode (encode width value) = value := by
  rw [decode_encode, Nat.mod_eq_of_lt h]

theorem encode_decode (bytes : Bytes) : encode bytes.length (decode bytes) = bytes := by
  induction bytes with
  | nil => rfl
  | cons byte rest ih =>
    have low : (byte.toNat + 256 * decode rest) / 256 = decode rest := by
      have : byte.toNat < 256 := byte.toNat_lt
      omega
    have byteEq : UInt8.ofNat (byte.toNat + 256 * decode rest) = byte := by
      apply UInt8.toNat_inj.1
      have : byte.toNat < 256 := byte.toNat_lt
      simp only [UInt8.toNat_ofNat']
      omega
    simp only [List.length_cons, encode, decode, low, ih, byteEq]

end LittleEndian

namespace Bytes

/-- A word of two bytes. -/
def word16 (x : UInt16) : Bytes := LittleEndian.encode 2 x.toNat

/-- A word of four bytes. -/
def word32 (x : UInt32) : Bytes := LittleEndian.encode 4 x.toNat

/-- A word of eight bytes. -/
def word64 (x : UInt64) : Bytes := LittleEndian.encode 8 x.toNat

@[simp] theorem length_word16 (x : UInt16) : (word16 x).length = 2 := LittleEndian.length_encode ..

@[simp] theorem length_word32 (x : UInt32) : (word32 x).length = 4 := LittleEndian.length_encode ..

@[simp] theorem length_word64 (x : UInt64) : (word64 x).length = 8 := LittleEndian.length_encode ..

end Bytes
end ApkArchive

namespace ApkArchive.Crc32

/-! ### CRC-32

The checksum that archive headers carry: the reflected polynomial `0xEDB88320`, started from and
finished with all ones. -/

/-- One bit of the division. -/
def stepBit (register : UInt32) : UInt32 :=
  if register &&& 1 = 1 then (register >>> 1) ^^^ 0xEDB88320 else register >>> 1

/-- One byte of the division. -/
def stepByte (register : UInt32) (byte : UInt8) : UInt32 :=
  stepBit <| stepBit <| stepBit <| stepBit <| stepBit <| stepBit <| stepBit <| stepBit <|
    register ^^^ byte.toUInt32

/-- The checksum of a byte string. -/
def checksum (bytes : Bytes) : UInt32 := bytes.foldl stepByte 0xFFFFFFFF ^^^ 0xFFFFFFFF

example : checksum [0x31, 0x32, 0x33, 0x34, 0x35, 0x36, 0x37, 0x38, 0x39] = 0xCBF43926 := by
  decide +kernel

end ApkArchive.Crc32

import ApkArchive.Bytes.Reader

/-!
# Fields at fixed places

A record can be looked at without parsing it: `field` is the number that stands at a fixed place.
The fields of a record that was written word by word are its words, in the order of writing:

    field (word16 x ++ rest) 0 2 = x
    field (word16 x ++ rest) (offset + 2) width = field rest offset width

A reader that takes words only is as good as the number of bytes it takes: it succeeds on every
buffer that has so many, and `Takes` is what is needed of it.
-/

namespace ApkArchive

namespace Bytes

/-- What follows the bytes that stand at a place. -/
theorem drop_of_drop_eq_append {bytes front back : Bytes} {place : Nat}
    (split : bytes.drop place = front ++ back) : bytes.drop (place + front.length) = back := by
  rw [← List.drop_drop, split, List.drop_left]

/-- The number in the `width` bytes at an offset. -/
def field (bytes : Bytes) (offset width : Nat) : Nat :=
  LittleEndian.decode ((bytes.drop offset).take width)

theorem field_drop (bytes : Bytes) (start offset width : Nat) :
    field (bytes.drop start) offset width = field bytes (start + offset) width := by
  rw [field, field, List.drop_drop]

/-- A field inside the first bytes of a buffer does not depend on what follows them. -/
theorem field_append_left {front : Bytes} {offset width : Nat}
    (inside : offset + width ≤ front.length) (back : Bytes) :
    field (front ++ back) offset width = field front offset width := by
  rw [field, field, List.drop_append_of_le_length (by omega), List.take_append_of_le_length]
  rw [List.length_drop]
  omega

theorem field_append_right (front back : Bytes) (offset width : Nat) :
    field (front ++ back) (front.length + offset) width = field back offset width := by
  rw [← field_drop, List.drop_left]

theorem field_front (word rest : Bytes) :
    field (word ++ rest) 0 word.length = LittleEndian.decode word := by
  rw [field, List.drop_zero, List.take_left]

theorem field_take {bytes : Bytes} {n offset width : Nat} (inside : offset + width ≤ n) :
    field (bytes.take n) offset width = field bytes offset width := by
  rw [field, field, List.drop_take, List.take_take, Nat.min_eq_left (by omega)]

/-! ### Words -/

@[simp] theorem decode_word16 (x : UInt16) : LittleEndian.decode (word16 x) = x.toNat :=
  LittleEndian.decode_encode_of_lt x.toNat_lt

@[simp] theorem decode_word32 (x : UInt32) : LittleEndian.decode (word32 x) = x.toNat :=
  LittleEndian.decode_encode_of_lt x.toNat_lt

@[simp] theorem decode_word64 (x : UInt64) : LittleEndian.decode (word64 x) = x.toNat :=
  LittleEndian.decode_encode_of_lt x.toNat_lt

@[simp] theorem field_word16 (x : UInt16) (rest : Bytes) :
    field (word16 x ++ rest) 0 2 = x.toNat := by
  have front := field_front (word16 x) rest
  rwa [length_word16, decode_word16] at front

@[simp] theorem field_word32 (x : UInt32) (rest : Bytes) :
    field (word32 x ++ rest) 0 4 = x.toNat := by
  have front := field_front (word32 x) rest
  rwa [length_word32, decode_word32] at front

@[simp] theorem field_word64 (x : UInt64) (rest : Bytes) :
    field (word64 x ++ rest) 0 8 = x.toNat := by
  have front := field_front (word64 x) rest
  rwa [length_word64, decode_word64] at front

@[simp] theorem field_skip_word16 (x : UInt16) (rest : Bytes) (offset width : Nat) :
    field (word16 x ++ rest) (offset + 2) width = field rest offset width := by
  rw [Nat.add_comm, ← length_word16 x, field_append_right]

@[simp] theorem field_skip_word32 (x : UInt32) (rest : Bytes) (offset width : Nat) :
    field (word32 x ++ rest) (offset + 4) width = field rest offset width := by
  rw [Nat.add_comm, ← length_word32 x, field_append_right]

/-- A number of four bytes is a word exactly if its bytes are the bytes of the word. -/
theorem field_eq_toNat_iff {bytes : Bytes} {offset : Nat} {x : UInt32}
    (inside : offset + 4 ≤ bytes.length) :
    field bytes offset 4 = x.toNat ↔ (bytes.drop offset).take 4 = word32 x := by
  have size : ((bytes.drop offset).take 4).length = 4 := by
    rw [List.length_take, List.length_drop]
    omega
  constructor
  · intro same
    have own := LittleEndian.encode_decode ((bytes.drop offset).take 4)
    rw [size] at own
    rw [← own, word32, ← same, field]
  · intro same
    rw [field, same, decode_word32]

end Bytes

namespace Reader

/-- On a buffer of at least `n` bytes the reader succeeds, and it takes the first `n`. -/
def Takes (n : Nat) (reader : Reader α) : Prop :=
  ∀ bytes : Bytes, n ≤ bytes.length →
    ∃ a rest, reader.run bytes = some (a, rest) ∧ n + rest.length = bytes.length

theorem takes_take (n : Nat) : Takes n (take n) := by
  intro bytes enough
  have split : bytes = bytes.take n ++ bytes.drop n := (List.take_append_drop n bytes).symm
  refine ⟨bytes.take n, bytes.drop n, take_run_eq_some_iff.2 ⟨split, ?_⟩, ?_⟩
  · exact List.length_take_of_le enough
  · rw [List.length_drop]
    omega

theorem Takes.map {n : Nat} {reader : Reader α} (h : Takes n reader) (f : α → β) :
    Takes n (f <$> reader) := by
  intro bytes enough
  obtain ⟨a, rest, read, left⟩ := h bytes enough
  refine ⟨f a, rest, ?_, left⟩
  rw [StateT.run_map, read]
  rfl

theorem takes_number (width : Nat) : Takes width (number width) := (takes_take width).map _

theorem takes_word16 : Takes 2 word16 := (takes_number 2).map _

theorem takes_word32 : Takes 4 word32 := (takes_number 4).map _

theorem takes_word64 : Takes 8 word64 := (takes_number 8).map _

theorem takes_pure (a : α) : Takes 0 (pure a : Reader α) :=
  fun bytes _ => ⟨a, bytes, rfl, Nat.zero_add _⟩

theorem takes_get : Takes 0 (get : Reader Bytes) :=
  fun bytes _ => ⟨bytes, bytes, rfl, Nat.zero_add _⟩

theorem Takes.bind {m n : Nat} {first : Reader α} {next : α → Reader β} (h : Takes m first)
    (rest : ∀ a, Takes n (next a)) : Takes (n + m) (first >>= next) := by
  intro bytes enough
  obtain ⟨a, left, read, size⟩ := h bytes (by omega)
  obtain ⟨b, left', read', size'⟩ := rest a left (by omega)
  refine ⟨b, left', ?_, by omega⟩
  rw [StateT.run_bind, read]
  exact read'

end Reader

end ApkArchive

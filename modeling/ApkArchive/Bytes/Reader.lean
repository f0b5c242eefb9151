import ApkArchive.Bytes

/-!
# Reading fields off the front of a buffer

A reader takes a value off the front of a byte string and leaves the rest, or finds that the
string is too short. Each reader of a word is characterised by the writer of that word:

    word16.run bytes = some (x, rest) ↔ bytes = Bytes.word16 x ++ rest
-/

namespace ApkArchive

/-- Takes a value off the front of a buffer; `none` if the buffer is too short. -/
abbrev Reader := StateT Bytes Option

namespace Reader

/-- The next `n` bytes. -/
def take (n : Nat) : Reader Bytes := Bytes.split? n

/-- The number in the next `width` bytes. -/
def number (width : Nat) : Reader Nat := LittleEndian.decode <$> take width

/-- The next two bytes as a word. -/
def word16 : Reader UInt16 := UInt16.ofNat <$> number 2

/-- The next four bytes as a word. -/
def word32 : Reader UInt32 := UInt32.ofNat <$> number 4

/-- The next eight bytes as a word. -/
def word64 : Reader UInt64 := UInt64.ofNat <$> number 8

theorem take_run_eq_some_iff {n : Nat} {bytes front rest : Bytes} :
    (take n).run bytes = some (front, rest) ↔ bytes = front ++ rest ∧ front.length = n :=
  Bytes.split?_eq_some_iff

theorem number_run_eq_some_iff {width n : Nat} {bytes rest : Bytes} :
    (number width).run bytes = some (n, rest) ↔
      n < LittleEndian.capacity width ∧ bytes = LittleEndian.encode width n ++ rest := by
  simp only [number, StateT.run_map, Option.map_eq_map, Option.map_eq_some_iff, Prod.exists,
    take_run_eq_some_iff, Prod.mk.injEq]
  constructor
  · rintro ⟨front, _, ⟨rfl, rfl⟩, rfl, rfl⟩
    exact ⟨LittleEndian.decode_lt front, by rw [LittleEndian.encode_decode]⟩
  · rintro ⟨lt, rfl⟩
    exact ⟨_, rest, ⟨rfl, LittleEndian.length_encode ..⟩, LittleEndian.decode_encode_of_lt lt, rfl⟩

theorem word16_run_eq_some_iff {x : UInt16} {bytes rest : Bytes} :
    word16.run bytes = some (x, rest) ↔ bytes = Bytes.word16 x ++ rest := by
  simp only [word16, StateT.run_map, Option.map_eq_map, Option.map_eq_some_iff, Prod.exists,
    number_run_eq_some_iff, Prod.mk.injEq, Bytes.word16]
  constructor
  · rintro ⟨n, _, ⟨lt, rfl⟩, rfl, rfl⟩
    rw [UInt16.toNat_ofNat_of_lt' lt]
  · rintro rfl
    exact ⟨x.toNat, rest, ⟨x.toNat_lt, rfl⟩, UInt16.ofNat_toNat, rfl⟩

theorem word32_run_eq_some_iff {x : UInt32} {bytes rest : Bytes} :
    word32.run bytes = some (x, rest) ↔ bytes = Bytes.word32 x ++ rest := by
  simp only [word32, StateT.run_map, Option.map_eq_map, Option.map_eq_some_iff, Prod.exists,
    number_run_eq_some_iff, Prod.mk.injEq, Bytes.word32]
  constructor
  · rintro ⟨n, _, ⟨lt, rfl⟩, rfl, rfl⟩
    rw [UInt32.toNat_ofNat_of_lt' lt]
  · rintro rfl
    exact ⟨x.toNat, rest, ⟨x.toNat_lt, rfl⟩, UInt32.ofNat_toNat, rfl⟩

theorem word64_run_eq_some_iff {x : UInt64} {bytes rest : Bytes} :
    word64.run bytes = some (x, rest) ↔ bytes = Bytes.word64 x ++ rest := by
  simp only [word64, StateT.run_map, Option.map_eq_map, Option.map_eq_some_iff, Prod.exists,
    number_run_eq_some_iff, Prod.mk.injEq, Bytes.word64]
  constructor
  · rintro ⟨n, _, ⟨lt, rfl⟩, rfl, rfl⟩
    rw [UInt64.toNat_ofNat_of_lt' lt]
  · rintro rfl
    exact ⟨x.toNat, rest, ⟨x.toNat_lt, rfl⟩, UInt64.ofNat_toNat, rfl⟩

/-! ### Reading a word, then more -/

section Bind

variable {f : UInt16 → Reader α} {g : UInt32 → Reader α} {a : α} {bytes rest : Bytes}

theorem run_word16_bind (f : UInt16 → Reader α) (x : UInt16) (rest : Bytes) :
    (word16 >>= f).run (Bytes.word16 x ++ rest) = (f x).run rest := by
  rw [StateT.run_bind, word16_run_eq_some_iff.2 rfl]
  rfl

theorem run_word32_bind (g : UInt32 → Reader α) (x : UInt32) (rest : Bytes) :
    (word32 >>= g).run (Bytes.word32 x ++ rest) = (g x).run rest := by
  rw [StateT.run_bind, word32_run_eq_some_iff.2 rfl]
  rfl

theorem run_word16_bind_eq_some_iff :
    (word16 >>= f).run bytes = some (a, rest) ↔
      ∃ x tail, bytes = Bytes.word16 x ++ tail ∧ (f x).run tail = some (a, rest) := by
  constructor
  · intro h
    rw [StateT.run_bind] at h
    obtain ⟨⟨x, tail⟩, first, h⟩ := Option.bind_eq_some_iff.1 h
    exact ⟨x, tail, word16_run_eq_some_iff.1 first, h⟩
  · rintro ⟨x, tail, rfl, h⟩
    rw [run_word16_bind, h]

theorem run_word32_bind_eq_some_iff :
    (word32 >>= g).run bytes = some (a, rest) ↔
      ∃ x tail, bytes = Bytes.word32 x ++ tail ∧ (g x).run tail = some (a, rest) := by
  constructor
  · intro h
    rw [StateT.run_bind] at h
    obtain ⟨⟨x, tail⟩, first, h⟩ := Option.bind_eq_some_iff.1 h
    exact ⟨x, tail, word32_run_eq_some_iff.1 first, h⟩
  · rintro ⟨x, tail, rfl, h⟩
    rw [run_word32_bind, h]

end Bind

end Reader
end ApkArchive

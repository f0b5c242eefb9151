import ApkArchive.Bytes

/-!
# Bit streams

A DEFLATE stream is a sequence of bits, the low bit of each byte first. `Bits` is what is left of
one: the rest of the byte that has been begun, then whole bytes. A `Decoder` takes something off
its front; it stops where the stream is truncated or corrupt.

Decoding is well-founded because of `Consumes` and `Shrinks`: a decoder that begins by taking a
bit leaves fewer bits than it found, and none ever leaves more.
-/

namespace ApkArchive.Deflate

/-- What is left of a bit stream. -/
structure Bits where
  /-- The bits that are left of the current byte. -/
  pending : List Bool
  /-- The bytes after it. -/
  rest : Bytes

namespace Bits

/-- All bits of a buffer. -/
def ofBytes (bytes : Bytes) : Bits := ⟨[], bytes⟩

/-- The bits of a byte, low bit first. -/
def ofByte (byte : UInt8) : List Bool := (List.range 8).map byte.toNat.testBit

/-- The stream as a list of bits. -/
def toList (bits : Bits) : List Bool := bits.pending ++ bits.rest.flatMap ofByte

/-- How many bits are left. -/
def count (bits : Bits) : Nat := bits.pending.length + 8 * bits.rest.length

end Bits

/-- Why decoding cannot go on. -/
inductive Stop
  /-- The stream ends here. -/
  | truncated
  /-- No stream goes on like this. -/
  | corrupt
  deriving DecidableEq, Repr

/-- Takes something off the front of a bit stream. -/
abbrev Decoder := StateT Bits (Except Stop)

namespace Decoder

/-- The next bit. -/
def bit : Decoder Bool
  | ⟨b :: pending, rest⟩ => .ok (b, ⟨pending, rest⟩)
  | ⟨[], byte :: rest⟩ => .ok (byte.toNat.testBit 0, ⟨(Bits.ofByte byte).tail, rest⟩)
  | ⟨[], []⟩ => .error .truncated

/-- A number of `n` bits, low bit first. -/
def number : Nat → Decoder Nat
  | 0 => pure 0
  | n + 1 => do
    let low ← bit
    let high ← number n
    return low.toNat + 2 * high

/-- So many numbers of `width` bits each. -/
def numbers (width : Nat) : (howMany : Nat) → Decoder (List Nat)
  | 0 => pure []
  | howMany + 1 => do
    let first ← number width
    return first :: (← numbers width howMany)

/-- Skips to the next whole byte. -/
def align : Decoder Unit := modify fun bits => { bits with pending := [] }

/-- Refuses the stream. -/
def corrupt : Decoder α := throw .corrupt

/-- The decoder leaves no more bits than it finds. -/
def Shrinks (decoder : Decoder α) : Prop :=
  ∀ bits a left, decoder.run bits = .ok (a, left) → left.count ≤ bits.count

/-- The decoder leaves fewer bits than it finds. -/
def Consumes (decoder : Decoder α) : Prop :=
  ∀ bits a left, decoder.run bits = .ok (a, left) → left.count < bits.count

theorem Consumes.shrinks {decoder : Decoder α} (h : decoder.Consumes) : decoder.Shrinks :=
  fun bits a left run => Nat.le_of_lt (h bits a left run)

theorem run_bind_eq_ok {decoder : Decoder α} {next : α → Decoder β} {bits left : Bits} {b : β} :
    (decoder >>= next).run bits = .ok (b, left) ↔
      ∃ a between, decoder.run bits = .ok (a, between) ∧ (next a).run between = .ok (b, left) := by
  rw [StateT.run_bind]
  cases decoder.run bits with
  | error => simp [bind, Except.bind]
  | ok pair =>
    simp only [bind, Except.bind, Except.ok.injEq]
    exact ⟨fun run => ⟨pair.1, pair.2, rfl, run⟩, fun ⟨_, _, h, run⟩ => h ▸ run⟩

theorem shrinks_pure (a : α) : (pure a : Decoder α).Shrinks := by
  intro bits b left run
  cases run
  exact Nat.le_refl _

theorem shrinks_corrupt : (corrupt : Decoder α).Shrinks := by
  intro bits b left run
  cases run

theorem Shrinks.bind {decoder : Decoder α} {next : α → Decoder β} (h : decoder.Shrinks)
    (hnext : ∀ a, (next a).Shrinks) : (decoder >>= next).Shrinks := by
  intro bits b left run
  obtain ⟨a, between, first, second⟩ := run_bind_eq_ok.1 run
  exact Nat.le_trans (hnext a _ _ _ second) (h _ _ _ first)

theorem Consumes.bind {decoder : Decoder α} {next : α → Decoder β} (h : decoder.Consumes)
    (hnext : ∀ a, (next a).Shrinks) : (decoder >>= next).Consumes := by
  intro bits b left run
  obtain ⟨a, between, first, second⟩ := run_bind_eq_ok.1 run
  exact Nat.lt_of_le_of_lt (hnext a _ _ _ second) (h _ _ _ first)

theorem consumes_bit : bit.Consumes := by
  intro bits a left run
  match bits with
  | ⟨_ :: pending, rest⟩ => cases run; simp only [Bits.count, List.length_cons]; omega
  | ⟨[], byte :: rest⟩ =>
    cases run
    simp only [Bits.count, Bits.ofByte, List.length_tail, List.length_map, List.length_range,
      List.length_nil, List.length_cons]
    omega
  | ⟨[], []⟩ => cases run

theorem shrinks_number (n : Nat) : (number n).Shrinks := by
  induction n with
  | zero => exact shrinks_pure 0
  | succ n ih =>
    exact consumes_bit.shrinks.bind fun _ => ih.bind fun _ => shrinks_pure _

theorem shrinks_numbers (width howMany : Nat) : (numbers width howMany).Shrinks := by
  induction howMany with
  | zero => exact shrinks_pure []
  | succ howMany ih =>
    exact (shrinks_number width).bind fun _ => ih.bind fun _ => shrinks_pure _

theorem shrinks_align : align.Shrinks := by
  intro bits a left run
  cases run
  simp [Bits.count]

end Decoder
end ApkArchive.Deflate

import ApkArchive.Bytes
import ApkArchive.Error

/-!
# Sinks

A sink takes bytes, one write after the other, and may refuse one. A refused write leaves the
sink as it was. `Emit` is the type of everything that writes: it may fail half-way, and then
what was written before stays written.
-/

namespace ApkArchive

/-- Takes bytes at its end. -/
structure Sink where
  /-- All bytes taken so far. -/
  contents : ByteArray := .empty
  /-- How many bytes each write brought, first write first. -/
  writes : Array Nat := #[]
  /-- Why the sink refuses a write, if it does, given the bytes and the writes taken before it. -/
  refusal : (contents : ByteArray) → (writes : Array Nat) → (chunk : Bytes) →
    Option StorageFault := fun _ _ _ => none

/-- Writes to a sink; an error keeps what was written before it. -/
abbrev Emit := EStateM Error Sink

namespace Sink

/-- A sink that refuses every write which would bring it above `limit` bytes. -/
def limited (limit : Nat) : Sink where
  refusal contents _ chunk :=
    if contents.size + chunk.length ≤ limit then none else some (.refused "sink full")

/-- The number of bytes taken so far. -/
def position (sink : Sink) : Nat := sink.contents.size

/-- Offers `chunk` to the sink. Nothing is no write. -/
def write (chunk : Bytes) : Emit Unit := fun sink =>
  if chunk.isEmpty then .ok () sink
  else
    match sink with
    | ⟨contents, writes, refusal⟩ =>
      match refusal contents writes chunk with
      | some fault => .error (.storage fault) ⟨contents, writes, refusal⟩
      | none => .ok () ⟨contents ++ chunk.toByteArray, writes.push chunk.length, refusal⟩

end Sink
end ApkArchive

import ApkArchive.Deflate.FixedBlock
import ApkArchive.Proofs.Deflate.Inflater
import ApkArchive.Proofs.Storage.Delivery
import ApkArchive.Proofs.Storage.Paths
import ApkArchive.Proofs.Zip.Emission

/-!
# Uncompressed data

The data of an entry is written uncompressed exactly if it can be: stored data always, deflated data
if its bytes are a stream, no byte of them is left over, and it inflates to the size that the
directory says.

Deflated data need not be read as a whole. `emitStreamed` hands every chunk of it to an inflater as
soon as it was read, and the inflater may take a chunk in parts. The outcome is the same for every
inflater that conforms, and the same as that of reading all of the data first.
-/

namespace ApkArchive

/-! ### Streaming into other things than sinks -/

namespace View

variable {view : View} {offset size : Nat}

end View

/-! ### Writing on open sinks and on others -/

namespace Sink

/-- The sink has taken `bytes`, and it is open if that is asked for. -/
def Ready (opened : Prop) (bytes : Bytes) (sink : Sink) : Prop :=
  (opened → sink.Open) ∧ sink.bytes = bytes

end Sink

/-! ### Streams -/

namespace Deflate

/-- The bytes are a stream that inflates to data of the given size, and nothing else. -/
structure Whole (stream : Bytes) (size : Nat) : Prop where
  valid : (inflate stream).2 ≠ .corrupt
  used : ∀ n, (inflate stream).2 ≠ .complete (n + 1)
  size : (inflate stream).1.size = size

/-- What is wrong with bytes that are not such a stream. -/
inductive StreamFault (name : String) (size : Nat) (stream : Bytes) : Fault → Prop
  | corrupt (invalid : (inflate stream).2 = .corrupt) :
    StreamFault name size stream (.corruptStream name)
  | trailing {n : Nat} (unused : (inflate stream).2 = .complete (n + 1)) :
    StreamFault name size stream (.trailingBytes name)
  | size (valid : (inflate stream).2 ≠ .corrupt)
    (used : ∀ n, (inflate stream).2 ≠ .complete (n + 1))
    (differs : (inflate stream).1.size ≠ size) :
    StreamFault name size stream (.inflatedSizeMismatch name size (inflate stream).1.size)

/-- No stream is wrong in two ways. -/
theorem StreamFault.unique {name : String} {size : Nat} {stream : Bytes} {fault fault' : Fault}
    (wrong : StreamFault name size stream fault) (wrong' : StreamFault name size stream fault') :
    fault = fault' := by
  cases wrong with
  | corrupt invalid =>
    cases wrong' with
    | corrupt => rfl
    | trailing unused => exact absurd (invalid.symm.trans unused) nofun
    | size valid => exact absurd invalid valid
  | trailing unused =>
    cases wrong' with
    | corrupt invalid => exact absurd (invalid.symm.trans unused) nofun
    | trailing => rfl
    | size _ used => exact absurd unused (used _)
  | size valid used =>
    cases wrong' with
    | corrupt invalid => exact absurd invalid valid
    | trailing unused => exact absurd unused (used _)
    | size => rfl

end Deflate

namespace LocalRecord

open Deflate

variable {σ : Type}

/-- An error says what is wrong with the stream, unless it is that of a sink that is not open. -/
def Rejects (name : String) (size : Nat) (stream : Bytes) (opened : Prop) (error : Error) : Prop :=
  (¬ opened ∧ ∃ fault, error = .storage fault) ∨
    ∃ fault, StreamFault name size stream fault ∧ error = .fault fault

/-- However the writer ends, the stream decides it. -/
def Inflates (action : Emit Unit) (name : String) (size : Nat) (stream : Bytes) : Prop :=
  ∀ opened front, Ensures (Sink.Ready opened front) action
    (fun _ sink => Sink.Ready opened (front ++ (inflate stream).1.data.toList) sink ∧
      Whole stream size)
    (fun error _ => Rejects name size stream opened error)

section Streamed

variable {record : LocalRecord} {inflater : Inflater σ} {stream front : Bytes} {opened : Prop}
  {size : Nat}

section Push

variable {taken output piece data : Bytes} {state state' : σ} {n : Nat}

end Push

end Streamed

/-- The data of an entry that can be read. -/
structure Readable (record : LocalRecord) (entries : View) (data : Bytes) : Prop where
  inside : record.start + record.dataStart + record.dataSize ≤ entries.size
  holds : entries.Holds (record.start + record.dataStart) record.dataSize
  data : entries.bytes (record.start + record.dataStart) record.dataSize = data

section

variable {record : LocalRecord} {entries : View} {data : Bytes}

end

/-! ### What comes out -/

section

variable {action : Emit Unit} {name : String} {size : Nat} {data : Bytes}

theorem Inflates.emits (inflates : Inflates action name size data) :
    Sink.Emits action () (inflate data).1.data.toList :=
  fun sink _ _ run => ⟨rfl, ((inflates False sink.bytes).ok ⟨nofun, rfl⟩ run).1.2⟩

/-- On an open sink, the stream alone decides. -/
theorem Inflates.outcome (inflates : Inflates action name size data) {sink : Sink}
    (isOpen : sink.Open) :
    (Whole data size ∧ ∃ sink', action sink = .ok () sink') ∨
      ∃ fault sink', StreamFault name size data fault ∧
        action sink = .error (.fault fault) sink' := by
  have ready : Sink.Ready True sink.bytes sink := ⟨fun _ => isOpen, rfl⟩
  cases run : action sink with
  | ok _ sink' => exact .inl ⟨((inflates True sink.bytes).ok ready run).2, sink', rfl⟩
  | error error sink' =>
    rcases (inflates True sink.bytes).error ready run with ⟨closed, -⟩ | ⟨fault, wrong, rfl⟩
    · exact absurd trivial closed
    · exact .inr ⟨fault, sink', wrong, rfl⟩

end

section

variable {record : LocalRecord} {entries : View} {data : Bytes}

end

end LocalRecord
end ApkArchive

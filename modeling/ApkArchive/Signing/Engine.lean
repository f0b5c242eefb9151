import ApkArchive.Signing.Notice
import ApkArchive.Storage.View
import ApkArchive.Zip.EndRecord

/-!
# Signing engines

The engine decides what is signed and how; a run asks it at fixed points:

1. what it has to say about the signing block of the input, once;
2. for each input entry, in file order, what becomes of it, and for each one that is kept, once
   more when it is written;
3. which entries to add;
4. for the signing block, given the finished sections of the output;
5. at the end.

An engine is a state and an answer to each question; answering may change the state, and may fail.
The state survives a failure. An engine that wants to see the data of an entry answers with a sink
for it, and is told when all data is in the sink.
-/

namespace ApkArchive.Signing

/-- What becomes of an input entry. -/
inductive Disposition
  /-- It is copied into the output. -/
  | keep
  /-- It is dropped; the engine adds its own version later. -/
  | replace
  /-- It is dropped. -/
  | skip
  deriving DecidableEq, Repr

/-- The answer for an input entry. -/
structure Decision where
  disposition : Disposition
  /-- Where to write the data of the entry, if the engine wants to see it. -/
  inspect : Option Sink := none
  /-- What the engine has to say about it in the log. -/
  remark : Option Notice := none

/-- When the data of an entry is shown to the engine. -/
inductive Stage
  /-- When its fate is decided. -/
  | input
  /-- When it is written. -/
  | output
  deriving DecidableEq, Repr

/-- An entry that the engine adds, uncompressed. -/
structure NewEntry where
  name : String
  data : Bytes
  deriving DecidableEq, Repr

/-- A signing block, and how many zero bytes go before it. -/
structure BlockRequest where
  padding : Nat := 0
  block : Bytes
  deriving DecidableEq, Repr

/-- The size of a block, padding included. -/
def BlockRequest.size (request : BlockRequest) : Nat := request.padding + request.block.length

/-- The sections of an output that has no signing block yet. -/
structure Unsigned where
  entries : ByteArray
  directory : Bytes
  endRecord : EndRecord

/-- An answer of an engine with state `σ`. -/
abbrev Ask (σ : Type) := EStateM Failure σ

/-- A signing engine with state `σ`. -/
structure Engine (σ : Type) where
  /-- The signing block of the input, if there is one. -/
  inputBlock : Option View → Ask σ Unit
  /-- What becomes of an input entry. -/
  inputEntry : (name : String) → Ask σ Decision
  /-- An entry is about to be written; the answer is a sink if the engine wants to see its data. -/
  outputEntry : (name : String) → Ask σ (Option Sink)
  /-- The data of an entry is in the sink that was asked for. -/
  inspected : Stage → (name : String) → (data : Bytes) → Ask σ Unit
  /-- The entries to add, if any are requested. -/
  newEntries : Ask σ (Option (List NewEntry))
  /-- The requested entries have been written. -/
  newEntriesWritten : Ask σ Unit
  /-- The signing block for an output, if there is to be one. -/
  signingBlock : Unsigned → Ask σ (Option BlockRequest)
  /-- The requested block has been written. -/
  blockWritten : Ask σ Unit
  /-- The output is complete. -/
  finished : Ask σ Unit

end ApkArchive.Signing

import ApkArchive.Signing.Engine

/-!
# Engines that follow a script

A script lays down all answers of an engine in advance, and where it fails. The engine writes down
what it is asked and what it is shown, which is what makes it useful for trying out a run.
-/

namespace ApkArchive.Signing

/-- The answers of an engine. -/
structure Script where
  /-- What becomes of entries; one that is not mentioned is kept. -/
  dispositions : List (String × Disposition) := []
  /-- The entries whose data is looked at when their fate is decided. -/
  inspectInput : List String := []
  /-- The entries whose data is looked at when they are written. -/
  inspectOutput : List String := []
  /-- The entries to add, if any are requested. -/
  additions : Option (List NewEntry) := none
  /-- The signing blocks, one for each time the engine is asked; the last one is repeated. -/
  blocks : List (Option BlockRequest) := []
  /-- The event at which the engine fails. -/
  failure : Option String := none
  /-- What the failure is wrapped in. -/
  context : Option String := none

namespace Script

/-- What the engine was shown at an event. -/
inductive Shown
  | nothing
  | data (bytes : Bytes)
  | sections (entriesSize : Nat) (entriesChecksum : UInt32) (directorySize : Nat)
      (directoryChecksum : UInt32) (endRecord : Bytes)
  deriving DecidableEq, Repr

/-- What the engine was asked or told. -/
structure Event where
  name : String
  shown : Shown := .nothing
  deriving DecidableEq, Repr

/-- What happened so far, and how often a signing block was asked for. -/
structure State where
  events : Array Event := #[]
  blocksAsked : Nat := 0

/-- Writes an event down, and fails if the script says so. -/
def log (script : Script) (event : Event) : Ask State Unit := do
  modify fun state => { state with events := state.events.push event }
  if script.failure = some event.name then
    let failure := s!"scripted failure at {event.name}"
    throw <| match script.context with
      | none => { error := failure }
      | some context => { error := context, causes := [failure] }

/-- The name of a stage in an event. -/
def stageName : Stage → String
  | .input => "input"
  | .output => "output"

/-- The sink for the data of an entry, if it is to be looked at. -/
def sinkFor (names : List String) (name : String) : Option Sink :=
  if names.contains name then some {} else none

/-- The answer when a signing block is asked for and has been `asked` times before. -/
def block (script : Script) (asked : Nat) : Option BlockRequest :=
  (script.blocks[min asked (script.blocks.length - 1)]?).join

/-- The engine that follows a script. -/
def engine (script : Script) : Engine State where
  inputBlock block := script.log {
    name := "signing_block"
    shown := match block.map View.toBytes with
      | some (.ok bytes) => .data bytes
      | _ => .nothing }
  inputEntry name := do
    script.log { name := s!"input:{name}" }
    return {
      disposition := (script.dispositions.lookup name).getD .keep
      inspect := sinkFor script.inspectInput name }
  outputEntry name := do
    script.log { name := s!"output:{name}" }
    return sinkFor script.inspectOutput name
  inspected stage name data :=
    script.log { name := s!"done:{stageName stage}:{name}", shown := .data data }
  newEntries := do
    script.log { name := "entries" }
    return script.additions
  newEntriesWritten := script.log { name := "done:entries" }
  signingBlock shown := do
    script.log {
      name := "zip_sections"
      shown := .sections shown.entries.size (Crc32.checksum shown.entries.data.toList)
        shown.directory.length (Crc32.checksum shown.directory) shown.endRecord.encode }
    modifyGet fun state =>
      (script.block state.blocksAsked, { state with blocksAsked := state.blocksAsked + 1 })
  blockWritten := script.log { name := "done:block" }
  finished := script.log { name := "done" }

end Script
end ApkArchive.Signing

import ApkArchive.Signing.Engine

/-!
# Sessions

A session is what a signing run works on: the state of the engine, the output, the calls made to
the engine and the notices for the log. A run that fails leaves them as they were when it failed.
-/

namespace ApkArchive.Signing

/-- A call to the engine, with its answer; no answer means that the engine failed. -/
inductive Call
  | inputBlock (block : Option View)
  | inputEntry (name : String) (answer : Option Decision)
  | outputEntry (name : String) (answer : Option (Option Sink))
  | inspected (stage : Stage) (name : String) (data : Bytes)
  | newEntries (answer : Option (Option (List NewEntry)))
  | newEntriesWritten
  | signingBlock (shown : Unsigned) (answer : Option (Option BlockRequest))
  | blockWritten
  | finished

/-- What a signing run works on. -/
structure Session (σ : Type) where
  engine : σ
  output : Sink := {}
  /-- The calls made so far, and how many bytes had been written at each of them. -/
  calls : Array (Call × Nat) := #[]
  notices : Array Notice := #[]

/-- A part of a signing run. -/
abbrev Run (σ : Type) := EStateM Error (Session σ)

namespace Run

/-- How many bytes have been written. -/
def position : Run σ Nat := return (← get).output.position

/-- Puts a notice into the log. -/
def note (notice : Notice) : Run σ Unit :=
  modify fun session => { session with notices := session.notices.push notice }

/-- Puts a notice into the log, if there is one. -/
def note? : Option Notice → Run σ Unit
  | some notice => note notice
  | none => pure ()

/-- Makes a call to the engine and writes it down. -/
def ask (question : Ask σ α) (call : Option α → Call) : Run σ α := fun session =>
  match session with
  | ⟨engine, output, calls, notices⟩ =>
    let calls (answer : Option α) := calls.push (call answer, output.position)
    match question.run engine with
    | .ok a engine => .ok a ⟨engine, output, calls (some a), notices⟩
    | .error failure engine => .error (.engine failure) ⟨engine, output, calls none, notices⟩

/-- Writes to the output. -/
def emit (action : Emit α) : Run σ α := fun session =>
  match session with
  | ⟨engine, output, calls, notices⟩ =>
    match action.run output with
    | .ok a output => .ok a ⟨engine, output, calls, notices⟩
    | .error error output => .error error ⟨engine, output, calls, notices⟩

end Run
end ApkArchive.Signing

import ApkArchive.Proofs.Alignment.Plan
import ApkArchive.Proofs.Signing.Additions
import ApkArchive.Proofs.Signing.Closing

/-!
# The order of the calls

The calls of a run follow a protocol. It begins with the signing block of the input; then the input
entries come in file order, each one decided and, if it is kept, asked for once more when it is
written; then the entries to add; then the signing block is asked for, as often as it takes; and at
the end the engine is told that block and output are complete. Data that the engine wants to see is
shown right after it has asked for it.

`Phase` says how far a run has come and `Step` which call may come next, and how many bytes must
have been written by then; what the engine answers decides which phase follows. `Reaches` is a whole
sequence of calls.

    opening → deciding → adding → asking → sealed → done

A call presupposes that everything before it has gone well: that the next entry was found, that the
data was shown, that all bytes were written that come before it. `Stuck` says that no call is left
because something has gone wrong.
-/

namespace ApkArchive.Signing

/-! ### Questions and answers -/

/-- A question to the engine, and how the call is written down with the answer. -/
inductive Engine.Poses (engine : Engine σ) : {α : Type} → Ask σ α → (Option α → Call) → Prop
  | inputBlock (block : Option View) :
      Poses engine (engine.inputBlock block) fun _ => .inputBlock block
  | inputEntry (name : String) : Poses engine (engine.inputEntry name) (.inputEntry name)
  | outputEntry (name : String) : Poses engine (engine.outputEntry name) (.outputEntry name)
  | inspected (stage : Stage) (name : String) (data : Bytes) :
      Poses engine (engine.inspected stage name data) fun _ => .inspected stage name data
  | newEntries : Poses engine engine.newEntries .newEntries
  | newEntriesWritten : Poses engine engine.newEntriesWritten fun _ => .newEntriesWritten
  | signingBlock (shown : Unsigned) :
      Poses engine (engine.signingBlock shown) (.signingBlock shown)
  | blockWritten : Poses engine engine.blockWritten fun _ => .blockWritten
  | finished : Poses engine engine.finished fun _ => .finished

/-- From its first state the engine gives the answers that were written down, one after the other,
and ends in the last state. -/
inductive Engine.Replays (engine : Engine σ) (start : σ) : List Call → σ → Prop
  | nil : Replays engine start [] start
  | snoc {α : Type} {calls : List Call} {state next : σ} {question : Ask σ α}
      {form : Option α → Call} {answer : α} (before : Replays engine start calls state)
      (poses : engine.Poses question form) (answered : question state = .ok answer next) :
      Replays engine start (calls ++ [form (some answer)]) next

/-- The engine has answered all calls but the last one, at which it failed. -/
def Engine.FailsAfter (engine : Engine σ) (start : σ) (calls : List Call) (failure : Failure)
    (last : σ) : Prop :=
  ∃ (earlier : List Call) (state : σ) (α : Type) (question : Ask σ α) (form : Option α → Call),
    engine.Replays start earlier state ∧ engine.Poses question form ∧
      question state = .error failure last ∧ calls = earlier ++ [form none]

/-- The call as it is written down if the engine fails. -/
def Call.unanswered : Call → Call
  | .inputEntry name _ => .inputEntry name none
  | .outputEntry name _ => .outputEntry name none
  | .newEntries _ => .newEntries none
  | .signingBlock shown _ => .signingBlock shown none
  | call => call

theorem Engine.Poses.unanswered {engine : Engine σ} {question : Ask σ α} {form : Option α → Call}
    (poses : engine.Poses question form) (answer : α) :
    (form (some answer)).unanswered = form none := by
  cases poses <;> rfl

/-! ### Asking for a signing block -/

/-- The size that an output with these sections would have with the block of an answer. -/
def Unsigned.total (shown : Unsigned) (answer : Option BlockRequest) : Nat :=
  shown.entries.size + answer.elim 0 BlockRequest.size + shown.directory.length +
    shown.endRecord.encode.length

/-- What was shown to the engine when a signing block was asked for, and the answer. -/
abbrev Inquiry := Unsigned × Option BlockRequest

namespace Inquiry

/-- As the session has it. -/
def answered (inquiry : Inquiry) : Unsigned × Option (Option BlockRequest) :=
  (inquiry.1, some inquiry.2)

def total (inquiry : Inquiry) : Nat := inquiry.1.total inquiry.2

end Inquiry

/-- What is settled before the first entry is decided. -/
structure Setting where
  /-- The signing block of the input. -/
  block : Option View
  /-- The entries of the input. -/
  entries : View
  /-- The records of the input with their places in the directory, in file order. -/
  order : List (DirectoryRecord × Nat)
  /-- The end record of the input. -/
  endRecord : EndRecord
  /-- How the entries that are kept are aligned. -/
  alignment : Alignment.Policy
  /-- How the data of new entries is compressed. -/
  deflate : Bytes → Bytes
  /-- Whether an output holds all of its entries, and these are their records. -/
  complete : ByteArray → List DirectoryRecord → Prop
  /-- What the size of the output is to be a multiple of. -/
  multiple : Nat

namespace Setting

variable (setting : Setting)

/-- After some inquiries the engine may be asked again and be shown these sections: at first the
complete entries, with the end record of the input for the new directory; later what was shown
before, with the comment padded by as much as was missing. -/
inductive Asks : List Inquiry → Unsigned → Prop
  | first {entries : ByteArray} {records : List DirectoryRecord}
      (complete : setting.complete entries records) :
      Asks [] {
        entries
        directory := Directory.encode records
        endRecord := setting.endRecord.withDirectory (UInt16.ofNat records.length)
          (UInt32.ofNat (Directory.size records)) (UInt32.ofNat entries.size) }
  | again {inquiries : List Inquiry} {last : Inquiry} {endRecord : EndRecord}
      (few : inquiries.length + 1 < maxAttempts) (misses : last.total % setting.multiple ≠ 0)
      (padded : last.1.endRecord.padComment
        (setting.multiple - last.total % setting.multiple) = .ok endRecord) :
      Asks (inquiries ++ [last]) { last.1 with endRecord }

/-- Inquiries that were made one after the other. -/
inductive Trail : List Inquiry → Prop
  | nil : Trail []
  | snoc {inquiries : List Inquiry} {shown : Unsigned} (trail : Trail inquiries)
      (asks : setting.Asks inquiries shown) (answer : Option BlockRequest) :
      Trail (inquiries ++ [(shown, answer)])

variable {setting} {inquiries : List Inquiry}

theorem Asks.length_lt {shown : Unsigned} (asks : setting.Asks inquiries shown) :
    inquiries.length < maxAttempts := by
  cases asks with
  | first records => exact Nat.zero_lt_succ _
  | again few misses padded => simpa using few

/-- Later the comment has as many zero bytes more as were missing. -/
theorem Asks.of_concat {last : Inquiry} {shown : Unsigned}
    (asks : setting.Asks (inquiries ++ [last]) shown) :
    last.total % setting.multiple ≠ 0 ∧ ∃ endRecord, shown = { last.1 with endRecord } ∧
      last.1.endRecord.padComment (setting.multiple - last.total % setting.multiple) =
        .ok endRecord := by
  generalize same : inquiries ++ [last] = all at asks
  cases asks with
  | first complete => simp at same
  | again few misses padded =>
    obtain ⟨rfl, single⟩ := List.append_inj' same rfl
    cases single
    exact ⟨misses, _, rfl, padded⟩

end Setting

/-! ### Phases -/

/-- How far a run has come. -/
inductive Phase
  /-- No call was made. -/
  | opening
  /-- These input entries have not been decided. -/
  | deciding (sweep : Sweep) (todo : List (DirectoryRecord × Nat))
  /-- An input entry is kept, and the engine is to be told that it is written. -/
  | writing (sweep : Sweep) (entry : DirectoryRecord × Nat) (found : LocalRecord)
      (todo : List (DirectoryRecord × Nat))
  /-- The engine waits for the data of an entry. Meanwhile nothing is written. -/
  | showing (stage : Stage) (name : String) (data : Emit Unit) (sink : Sink) (written : Nat)
      (next : Phase)
  /-- These new entries have not been written; `kept` are the records of the entries before them. -/
  | adding (kept : List DirectoryRecord) (additions : Additions) (todo : List NewEntry)
  /-- All entries are written, and the engine was asked for a signing block like this. -/
  | asking (records : List DirectoryRecord) (inquiries : List Inquiry)
  /-- The block of the last answer is written. -/
  | sealed (inquiries : List Inquiry)
  /-- The output is complete. -/
  | done (inquiries : List Inquiry)
  /-- An entry does not fit into the output. -/
  | barred

namespace Sweep

/-- Where an entry begins in the output, after what lies before it. -/
def offsetOf (sweep : Sweep) (found : LocalRecord) : Nat :=
  sweep.offset + (found.start - sweep.covered)

/-- Where the output goes on after the last entry and what lies behind it. -/
def offsetAfter (sweep : Sweep) (entries : View) : Nat :=
  sweep.offset + (entries.size - sweep.covered)

/-- The sweep after an entry of which so many bytes were written. -/
def next (sweep : Sweep) (found : LocalRecord) (fate : Fate) (written : Nat) : Sweep where
  covered := max sweep.covered found.stop
  offset := sweep.offsetOf found + written
  fates := fate :: sweep.fates

end Sweep

namespace Setting

variable (setting : Setting)

/-- How a kept entry is written. -/
def planFor (sweep : Sweep) (found : LocalRecord) : Alignment.Plan :=
  setting.alignment.plan found (sweep.offsetOf found)

/-- Where a kept entry leads: it is copied as planned, if it can be. -/
def keep (sweep : Sweep) (entry : DirectoryRecord × Nat) (found : LocalRecord)
    (todo : List (DirectoryRecord × Nat)) : Phase :=
  let offset := sweep.offsetOf found
  let plan := setting.planFor sweep found
  if offset < UInt32.size ∧ (plan.extraField found).length < 65536 then
    let fate :=
      .kept (entry.1.withLocalOffset (UInt32.ofNat offset)) entry.2 (plan ≠ .unchanged)
    .deciding (sweep.next found fate (plan.size found)) todo
  else .barred

/-- The record of a new entry that is written to an offset of the output, if it fits. -/
def newRecord? (stamp : Timestamp) (offset : Nat) (entry : NewEntry) : Option DirectoryRecord :=
  let compressed := setting.deflate entry.data
  if offset < UInt32.size ∧ entry.data.length < UInt32.size ∧ compressed.length < UInt32.size then
    (DirectoryRecord.newDeflated entry.name stamp (Crc32.checksum entry.data)
      (UInt32.ofNat compressed.length) (UInt32.ofNat entry.data.length)
        (UInt32.ofNat offset)).toOption
  else none

/-- How many bytes a new entry takes. -/
def newSize (entry : NewEntry) : Nat :=
  LocalHeader.fixedSize + (LossyUtf8.encode entry.name).length +
    (setting.deflate entry.data).length

/-- Where a new entry leads: it is written, if it can be. -/
def add (kept : List DirectoryRecord) (additions : Additions) (entry : NewEntry)
    (todo : List NewEntry) : Phase :=
  match setting.newRecord? (newStamp kept) additions.offset entry with
  | none => .barred
  | some record =>
    .adding kept {
      records := record :: additions.records
      names := additions.names.insert entry.name
      offset := additions.offset + setting.newSize entry } todo

end Setting

namespace Phase

/-- Shows data to the engine, if it has asked for that, and goes on. -/
def thenShow (stage : Stage) (name : String) (data : Emit Unit) (sink : Option Sink)
    (written : Nat) (next : Phase) : Phase :=
  match sink with
  | none => next
  | some sink => showing stage name data sink written next

/-- Where an input entry leads that was decided. -/
def settle (sweep : Sweep) (entry : DirectoryRecord × Nat) (found : LocalRecord)
    (todo : List (DirectoryRecord × Nat)) : Disposition → Phase
  | .keep => writing sweep entry found todo
  | .replace => deciding (sweep.next found .replaced 0) todo
  | .skip => deciding (sweep.next found .skipped 0) todo

/-- Where a run goes when it knows the entries to add. -/
def supply (kept : List DirectoryRecord) (offset : Nat) : Option (List NewEntry) → Phase
  | none => asking kept []
  | some entries => adding kept { names := .ofList (kept.map (·.name)), offset } entries

/-- How the engine was asked for a signing block so far. -/
def inquiries : Phase → List Inquiry
  | asking _ inquiries | sealed inquiries | done inquiries => inquiries
  | showing _ _ _ _ _ next => next.inquiries
  | _ => []

end Phase

/-- The sections have a directory of these records, and all numbers fit into the end record. -/
structure Unsigned.Fits (shown : Unsigned) (records : List DirectoryRecord) : Prop where
  directory : shown.directory = Directory.encode records
  count : records.length < 65536
  size : Directory.size records ≤ View.maxBufferSize
  offset : shown.entries.size < UInt32.size

/-- The call that takes a run from one phase to the next one, with the number of bytes that must
have been written before it. Data that is shown is what the sink holds that the engine has asked
for, after the data of the entry was written to it. -/
inductive Step (setting : Setting) : Phase → Call × Nat → Phase → Prop
  | inputBlock : Step setting .opening (.inputBlock setting.block, 0) (.deciding {} setting.order)
  | inputEntry {sweep : Sweep} {entry : DirectoryRecord × Nat} {todo : List (DirectoryRecord × Nat)}
      {found : LocalRecord} {decision : Decision}
      (located : LocalRecord.locate setting.entries entry.1 setting.entries.size = .ok found) :
      Step setting (.deciding sweep (entry :: todo))
        (.inputEntry entry.1.name (some decision), sweep.offsetOf found)
        (.thenShow .input entry.1.name (found.emitData setting.entries) decision.inspect
          (sweep.offsetOf found) (.settle sweep entry found todo decision.disposition))
  | outputEntry {sweep : Sweep} {entry : DirectoryRecord × Nat} {found : LocalRecord}
      {todo : List (DirectoryRecord × Nat)} {sink : Option Sink} :
      Step setting (.writing sweep entry found todo)
        (.outputEntry entry.1.name (some sink), sweep.offsetOf found)
        (.thenShow .output entry.1.name (found.emitData setting.entries) sink
          (sweep.offsetOf found) (setting.keep sweep entry found todo))
  | inspected {stage : Stage} {name : String} {data : Emit Unit} {sink sink' : Sink} {written : Nat}
      {next : Phase} (fed : data sink = .ok () sink') :
      Step setting (.showing stage name data sink written next)
        (.inspected stage name sink'.bytes, written) next
  | newEntries {sweep : Sweep} {answer : Option (List NewEntry)} :
      Step setting (.deciding sweep [])
        (.newEntries (some answer), sweep.offsetAfter setting.entries)
        (.supply sweep.records (sweep.offsetAfter setting.entries) answer)
  | newEntry {kept : List DirectoryRecord} {additions : Additions} {entry : NewEntry}
      {todo : List NewEntry} {sink : Option Sink}
      (fresh : additions.names.contains entry.name = false) :
      Step setting (.adding kept additions (entry :: todo))
        (.outputEntry entry.name (some sink), additions.offset)
        (.thenShow .output entry.name (Sink.write entry.data) sink additions.offset
          (setting.add kept additions entry todo))
  | newEntriesWritten {kept : List DirectoryRecord} {additions : Additions} :
      Step setting (.adding kept additions []) (.newEntriesWritten, additions.offset)
        (.asking (kept ++ additions.records.reverse) [])
  | signingBlock {records : List DirectoryRecord} {inquiries : List Inquiry} {shown : Unsigned}
      {answer : Option BlockRequest} (asks : setting.Asks inquiries shown)
      (fits : shown.Fits records) :
      Step setting (.asking records inquiries)
        (.signingBlock shown (some answer), shown.entries.size)
        (.asking records (inquiries ++ [(shown, answer)]))
  | blockWritten {records : List DirectoryRecord} {inquiries : List Inquiry} {shown : Unsigned}
      {request : BlockRequest} (fits : shown.total (some request) % setting.multiple = 0)
      (offsetFits : shown.entries.size + request.size < UInt32.size) :
      Step setting (.asking records (inquiries ++ [(shown, some request)]))
        (.blockWritten, shown.entries.size + request.size)
        (.sealed (inquiries ++ [(shown, some request)]))
  | finishedSealed {inquiries : List Inquiry} {last : Inquiry} :
      Step setting (.sealed (inquiries ++ [last])) (.finished, last.total)
        (.done (inquiries ++ [last]))
  | finished {records : List DirectoryRecord} {inquiries : List Inquiry} {shown : Unsigned}
      (fits : shown.total none % setting.multiple = 0) :
      Step setting (.asking records (inquiries ++ [(shown, none)])) (.finished, shown.total none)
        (.done (inquiries ++ [(shown, none)]))

/-- Calls, with the numbers of bytes written before them, that take a run to a phase. -/
inductive Reaches (setting : Setting) : List (Call × Nat) → Phase → Prop
  | start : Reaches setting [] .opening
  | step {calls : List (Call × Nat)} {call : Call × Nat} {phase next : Phase}
      (before : Reaches setting calls phase) (step : Step setting phase call next) :
      Reaches setting (calls ++ [call]) next

/-- Calls of which the last one could be made, but has no answer. -/
def BreaksOff (setting : Setting) (calls : List (Call × Nat)) : Prop :=
  ∃ earlier phase call written next, Reaches setting earlier phase ∧
    Step setting phase (call, written) next ∧ calls = earlier ++ [(call.unanswered, written)]

/-- What may come after an answer: if it does not fit, the next inquiry; if it does, the block, or
the end of the output. -/
theorem Step.of_asking {setting : Setting} {records : List DirectoryRecord}
    {inquiries : List Inquiry} {last : Inquiry} {call : Call} {written : Nat} {next : Phase}
    (step : Step setting (.asking records (inquiries ++ [last])) (call, written) next) :
    (last.total % setting.multiple ≠ 0 ∧ ∃ shown, setting.Asks (inquiries ++ [last]) shown) ∨
      last.total % setting.multiple = 0 ∧
        ((∃ request, last.2 = some request ∧ written = last.1.entries.size + request.size ∧
            written < UInt32.size) ∨
          last.2 = none ∧ written = last.total) := by
  generalize same : Phase.asking records (inquiries ++ [last]) = phase at step
  cases step with
  | signingBlock asks fits =>
    cases same
    exact .inl ⟨asks.of_concat.1, _, asks⟩
  | blockWritten fits offsetFits =>
    injection same with _ same
    obtain ⟨-, single⟩ := List.append_inj' same rfl
    cases single
    exact .inr ⟨fits, .inl ⟨_, rfl, rfl, offsetFits⟩⟩
  | finished fits =>
    injection same with _ same
    obtain ⟨-, single⟩ := List.append_inj' same rfl
    cases single
    exact .inr ⟨fits, .inr ⟨rfl, rfl⟩⟩
  | _ => cases same

/-! ### Nothing left to call -/

/-- The output is not complete, but after so many bytes no call is left to make. -/
structure Stuck (setting : Setting) (phase : Phase) (written : Nat) : Prop where
  unfinished : ∀ inquiries, phase ≠ .done inquiries
  mute : ∀ call next, ¬ Step setting phase (call, written) next

namespace Stuck

variable {setting : Setting} {written : Nat}

theorem barred : Stuck setting .barred written := ⟨fun _ => nofun, fun _ _ => nofun⟩

section Sweep

variable {sweep : Sweep} {entry : DirectoryRecord × Nat} {todo : List (DirectoryRecord × Nat)}

/-- What was written before the next entry is written for good. -/
theorem of_early (early : written < sweep.offset) :
    Stuck setting (.deciding sweep todo) written := by
  refine ⟨fun _ => nofun, fun call next step => ?_⟩
  cases step with
  | inputEntry located => exact Nat.not_lt.2 (Nat.le_add_right ..) early
  | newEntries => exact Nat.not_lt.2 (Nat.le_add_right ..) early

/-- The bytes before the next entry are missing. -/
theorem of_gap {found : LocalRecord}
    (located : LocalRecord.locate setting.entries entry.1 setting.entries.size = .ok found)
    (early : written < sweep.offsetOf found) :
    Stuck setting (.deciding sweep (entry :: todo)) written := by
  refine ⟨fun _ => nofun, fun call next step => ?_⟩
  cases step with
  | inputEntry other =>
    cases located.symm.trans other
    exact Nat.lt_irrefl _ early

theorem of_unlocated {error : Error}
    (lost : LocalRecord.locate setting.entries entry.1 setting.entries.size = .error error) :
    Stuck setting (.deciding sweep (entry :: todo)) written := by
  refine ⟨fun _ => nofun, fun call next step => ?_⟩
  cases step with
  | inputEntry located => exact nomatch lost.symm.trans located

/-- The bytes after the last entry are missing. -/
theorem of_tail (early : written < sweep.offsetAfter setting.entries) :
    Stuck setting (.deciding sweep []) written := by
  refine ⟨fun _ => nofun, fun call next step => ?_⟩
  cases step with
  | newEntries => exact Nat.lt_irrefl _ early

/-- The entry is not written to its end. -/
theorem keep {found : LocalRecord}
    (early : written < sweep.offsetOf found + (setting.planFor sweep found).size found) :
    Stuck setting (setting.keep sweep entry found todo) written := by
  unfold Setting.keep
  dsimp only
  split
  · exact of_early early
  · exact barred

end Sweep

theorem showing {stage : Stage} {name : String} {data : Emit Unit} {sink sink' : Sink}
    {error : Error} {before : Nat} {next : Phase} (failed : data sink = .error error sink') :
    Stuck setting (.showing stage name data sink before next) written := by
  refine ⟨fun _ => nofun, fun call next step => ?_⟩
  cases step with
  | inspected fed => exact nomatch failed.symm.trans fed

section Additions

variable {kept : List DirectoryRecord} {additions : Additions} {entry : NewEntry}
  {todo : List NewEntry}

theorem of_taken (taken : additions.names.contains entry.name = true) :
    Stuck setting (.adding kept additions (entry :: todo)) written := by
  refine ⟨fun _ => nofun, fun call next step => ?_⟩
  cases step with
  | newEntry fresh => exact Bool.false_ne_true (fresh.symm.trans taken)

/-- The new entry is not written to its end. -/
theorem add (early : written < additions.offset + setting.newSize entry) :
    Stuck setting (setting.add kept additions entry todo) written := by
  unfold Setting.add
  split
  · exact barred
  · refine ⟨fun _ => nofun, fun call next step => ?_⟩
    cases step with
    | newEntry fresh => exact Nat.lt_irrefl _ early
    | newEntriesWritten => exact Nat.lt_irrefl _ early

end Additions

section Asking

variable {records : List DirectoryRecord} {inquiries : List Inquiry}

/-- A directory that does not fit is not shown. -/
theorem of_unfit (unfit : ∀ shown : Unsigned, shown.entries.size = written → ¬ shown.Fits records) :
    Stuck setting (.asking records []) written := by
  refine ⟨fun _ => nofun, fun call next step => ?_⟩
  generalize same : Phase.asking records [] = phase at step
  cases step with
  | signingBlock asks fits =>
    cases same
    exact unfit _ rfl fits
  | blockWritten => simp at same
  | finished => simp at same
  | _ => cases same

/-- The last answer does not fit, and the engine is not asked again. -/
theorem of_misses {last : Inquiry} (misses : last.total % setting.multiple ≠ 0)
    (last_one : ∀ shown, ¬ setting.Asks (inquiries ++ [last]) shown) :
    Stuck setting (.asking records (inquiries ++ [last])) written := by
  refine ⟨fun _ => nofun, fun call next step => ?_⟩
  rcases step.of_asking with ⟨-, shown, asks⟩ | ⟨fits, -⟩
  · exact last_one shown asks
  · exact misses fits

/-- The block is not written to its end, or it moves the directory too far. -/
theorem of_block {shown : Unsigned} {request : BlockRequest}
    (fits : shown.total (some request) % setting.multiple = 0)
    (early : written < shown.entries.size + request.size ∨
      UInt32.size ≤ shown.entries.size + request.size) :
    Stuck setting (.asking records (inquiries ++ [(shown, some request)])) written := by
  refine ⟨fun _ => nofun, fun call next step => ?_⟩
  rcases step.of_asking with ⟨misses, -⟩ | ⟨-, ⟨_, ⟨⟩, place, small⟩ | ⟨⟨⟩, -⟩⟩
  · exact misses fits
  · dsimp only at place
    omega

/-- Without a block, the output is not written to its end. -/
theorem of_end {shown : Unsigned} (fits : shown.total none % setting.multiple = 0)
    (early : written < shown.total none) :
    Stuck setting (.asking records (inquiries ++ [(shown, none)])) written := by
  refine ⟨fun _ => nofun, fun call next step => ?_⟩
  rcases step.of_asking with ⟨misses, -⟩ | ⟨-, ⟨_, ⟨⟩, -⟩ | ⟨-, place⟩⟩
  · exact misses fits
  · exact Nat.ne_of_lt early place

/-- After the block, the output is not written to its end. -/
theorem of_sealed {last : Inquiry} (early : written < last.total) :
    Stuck setting (.sealed (inquiries ++ [last])) written := by
  refine ⟨fun _ => nofun, fun call next step => ?_⟩
  generalize same : Phase.sealed (inquiries ++ [last]) = phase at step
  cases step with
  | finishedSealed =>
    injection same with same
    obtain ⟨-, single⟩ := List.append_inj' same rfl
    cases single
    exact Nat.lt_irrefl _ early
  | _ => cases same

end Asking

end Stuck

/-! ### What the protocol says of the inquiries -/

@[simp] theorem Phase.inquiries_thenShow (stage : Stage) (name : String) (data : Emit Unit)
    (sink : Option Sink) (written : Nat) (next : Phase) :
    (thenShow stage name data sink written next).inquiries = next.inquiries := by
  cases sink <;> rfl

@[simp] theorem Phase.inquiries_settle (sweep : Sweep) (entry : DirectoryRecord × Nat)
    (found : LocalRecord) (todo : List (DirectoryRecord × Nat)) (disposition : Disposition) :
    (settle sweep entry found todo disposition).inquiries = [] := by
  cases disposition <;> rfl

@[simp] theorem Phase.inquiries_supply (kept : List DirectoryRecord) (offset : Nat)
    (answer : Option (List NewEntry)) : (supply kept offset answer).inquiries = [] := by
  cases answer <;> rfl

@[simp] theorem Setting.inquiries_keep (setting : Setting) (sweep : Sweep)
    (entry : DirectoryRecord × Nat) (found : LocalRecord) (todo : List (DirectoryRecord × Nat)) :
    (setting.keep sweep entry found todo).inquiries = [] := by
  unfold keep
  dsimp only
  split <;> rfl

@[simp] theorem Setting.inquiries_add (setting : Setting) (kept : List DirectoryRecord)
    (additions : Additions) (entry : NewEntry) (todo : List NewEntry) :
    (setting.add kept additions entry todo).inquiries = [] := by
  unfold add
  split <;> rfl

/-- A step makes an inquiry or none. -/
theorem Step.inquiries {setting : Setting} {phase next : Phase} {call : Call × Nat}
    (step : Step setting phase call next) :
    (call.1.round? = none ∧ next.inquiries = phase.inquiries) ∨
      ∃ shown answer, setting.Asks phase.inquiries shown ∧
        call.1.round? = some (shown, some answer) ∧
          next.inquiries = phase.inquiries ++ [(shown, answer)] := by
  cases step with
  | signingBlock asks => exact .inr ⟨_, _, asks, rfl, rfl⟩
  | inputEntry => exact .inl ⟨rfl, by simp [Phase.inquiries]⟩
  | outputEntry => exact .inl ⟨rfl, by simp [Phase.inquiries]⟩
  | newEntries => exact .inl ⟨rfl, by simp [Phase.inquiries]⟩
  | newEntry => exact .inl ⟨rfl, by simp [Phase.inquiries]⟩
  | _ => exact .inl ⟨rfl, rfl⟩

/-- The requests for a signing block among the calls are the inquiries of the phase, and they follow
each other. -/
theorem Reaches.inquiries {setting : Setting} {calls : List (Call × Nat)} {phase : Phase}
    (reaches : Reaches setting calls phase) :
    setting.Trail phase.inquiries ∧
      calls.filterMap (fun call => call.1.round?) = phase.inquiries.map Inquiry.answered := by
  induction reaches with
  | start => exact ⟨.nil, rfl⟩
  | step before step ih =>
    obtain ⟨trail, rounds⟩ := ih
    rw [List.filterMap_append, rounds]
    rcases step.inquiries with ⟨none, same⟩ | ⟨shown, answer, asks, some, more⟩
    · rw [same]
      refine ⟨trail, ?_⟩
      simp [none]
    · rw [more]
      refine ⟨trail.snoc asks answer, ?_⟩
      simp [some, Inquiry.answered]

end ApkArchive.Signing

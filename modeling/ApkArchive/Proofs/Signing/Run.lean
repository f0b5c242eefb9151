import ApkArchive.Proofs.Storage.Stream
import ApkArchive.Signing.Session

/-!
# What a part of a run does

A run writes to the output and calls the engine, and only ever adds to both. `Extends` says what a
part of a run has added: the bytes, and the calls that decide what is written. The parts of a run
are then put together by `Extends.trans`, without a look at the state in between.
-/

namespace ApkArchive.Signing

/-! ### What was decided -/

namespace Call

/-- Whether the answer to the call decides what is written, or the call marks that something was
written. All other calls only show data to the engine. -/
def isMilestone : Call → Bool
  | outputEntry .. | inspected .. => false
  | _ => true

/-- What became of an input entry. -/
def decision? : Call → Option (String × Disposition)
  | inputEntry name (some decision) => some (name, decision.disposition)
  | _ => none

/-- The new entries that the engine supplied. -/
def supply? : Call → Option (List NewEntry)
  | newEntries (some (some entries)) => some entries
  | _ => none

/-- The sections that were shown when a signing block was asked for, and the answer. -/
def round? : Call → Option (Unsigned × Option (Option BlockRequest))
  | signingBlock shown answer => some (shown, answer)
  | _ => none

end Call

namespace Session

variable (session : Session σ)

/-- What the engine decided about the input entries, in the order in which it was asked. -/
def decisions : List (String × Disposition) :=
  session.calls.toList.filterMap fun call => call.1.decision?

/-- All new entries that the engine supplied. -/
def supplies : List NewEntry :=
  (session.calls.toList.filterMap fun call => call.1.supply?).flatten

/-- All requests for a signing block, with their answers. -/
def rounds : List (Unsigned × Option (Option BlockRequest)) :=
  session.calls.toList.filterMap fun call => call.1.round?

/-- The calls that decide what is written. -/
def milestones : List Call := (session.calls.toList.map (·.1)).filter Call.isMilestone

theorem filterMap_milestones {f : Call → Option α}
    (only : ∀ call, call.isMilestone = false → f call = none) :
    session.milestones.filterMap f = session.calls.toList.filterMap fun call => f call.1 := by
  rw [milestones, List.filterMap_filter, List.filterMap_map]
  congr 1
  funext call
  show (if call.1.isMilestone then f call.1 else none) = _
  split
  · rfl
  · next other => exact (only call.1 (Bool.eq_false_iff.2 other)).symm

theorem decisions_eq : session.decisions = session.milestones.filterMap Call.decision? := by
  rw [filterMap_milestones, decisions]
  intro call other
  match call with
  | .outputEntry .. | .inspected .. => rfl

theorem rounds_eq : session.rounds = session.milestones.filterMap Call.round? := by
  rw [filterMap_milestones, rounds]
  intro call other
  match call with
  | .outputEntry .. | .inspected .. => rfl

theorem supplies_eq :
    session.supplies = (session.milestones.filterMap Call.supply?).flatten := by
  rw [filterMap_milestones, supplies]
  intro call other
  match call with
  | .outputEntry .. | .inspected .. => rfl

end Session

/-! ### What was added -/

/-- Between two states of a run some bytes were written and some milestones were reached. -/
structure Extends (before after : Session σ) (written : Bytes) (reached : List Call) : Prop where
  output : after.output.bytes = before.output.bytes ++ written
  milestones : after.milestones = before.milestones ++ reached

namespace Extends

variable {s mid s' : Session σ} {written written' : Bytes} {reached reached' : List Call}

theorem refl (s : Session σ) : Extends s s [] [] :=
  ⟨(List.append_nil _).symm, (List.append_nil _).symm⟩

theorem trans (h : Extends s mid written reached) (h' : Extends mid s' written' reached') :
    Extends s s' (written ++ written') (reached ++ reached') where
  output := by rw [h'.output, h.output, List.append_assoc]
  milestones := by rw [h'.milestones, h.milestones, List.append_assoc]

/-- Before a part that writes, nothing was written. -/
theorem after_silence (h : Extends s mid [] []) (h' : Extends mid s' written reached) :
    Extends s s' written reached := h.trans h'

/-- After a part that writes, nothing was written. -/
theorem before_silence (h : Extends s mid written reached) (h' : Extends mid s' [] []) :
    Extends s s' written reached := by
  have := h.trans h'
  rwa [List.append_nil, List.append_nil] at this

theorem length_output (h : Extends s s' written reached) :
    s'.output.bytes.length = s.output.bytes.length + written.length := by
  rw [h.output, List.length_append]

theorem position_eq (h : Extends s s' [] reached) : s'.output.position = s.output.position := by
  rw [Sink.position_eq, Sink.position_eq, h.length_output]
  rfl

end Extends

/-! ### The steps of a run -/

def Run.succeeded : EStateM.Result Error (Session σ) α → Bool
  | .ok .. => true
  | .error .. => false

/-- The session in which a run has ended, however it ended. -/
def Run.ending : EStateM.Result Error (Session σ) α → Session σ
  | .ok _ final => final
  | .error _ final => final

namespace Run

variable {s s' : Session σ}

theorem run_position_eq_ok {f : Nat → Run σ α} {a : α} (run : (position >>= f) s = .ok a s') :
    f s.output.bytes.length s = .ok a s' := by
  rw [← Sink.position_eq]
  exact run

theorem note_extends {notice : Notice} {u : Unit} (run : note notice s = .ok u s') :
    Extends s s' [] [] := by
  cases run
  exact ⟨(List.append_nil _).symm, (List.append_nil _).symm⟩

theorem note?_extends {notice : Option Notice} {u : Unit} (run : note? notice s = .ok u s') :
    Extends s s' [] [] := by
  cases notice with
  | none =>
    obtain ⟨-, rfl⟩ := run_pure_eq_ok_iff.1 run
    exact Extends.refl s
  | some notice => exact note_extends run

/-- What was emitted came out of a run of the writer, and nothing else has changed. -/
theorem emit_eq_ok {action : Emit α} {a : α} (run : emit action s = .ok a s') :
    ∃ sink, action s.output = .ok a sink ∧
      ∀ written, sink.bytes = s.output.bytes ++ written → Extends s s' written [] := by
  unfold emit at run
  split at run
  next engine output calls notices =>
  split at run
  · next b output' ran =>
    cases run
    exact ⟨output', ran, fun _ wrote => ⟨wrote, (List.append_nil _).symm⟩⟩
  · cases run

theorem emit_extends {action : Emit α} {a a' : α} {written : Bytes}
    (emits : Sink.Emits action a written) (run : emit action s = .ok a' s') :
    Extends s s' written [] := by
  obtain ⟨sink, ran, extends_of⟩ := emit_eq_ok run
  exact extends_of written (emits ran).2

/-- A call that is answered leaves the output alone and is written down. -/
theorem ask_eq_ok {question : Ask σ α} {call : Option α → Call} {a : α}
    (run : ask question call s = .ok a s') :
    s'.output = s.output ∧
      s'.calls.toList.map (·.1) = s.calls.toList.map (·.1) ++ [call (some a)] := by
  unfold ask at run
  split at run
  next engine output calls notices =>
  dsimp only at run
  split at run
  · cases run
    exact ⟨rfl, by simp⟩
  · cases run

/-- A call is written down last, with the number of bytes that had been written. -/
theorem getLast?_calls_of_ask {question : Ask σ α} {call : Option α → Call} {a : α}
    (run : ask question call s = .ok a s') :
    s'.calls.toList.getLast? = some (call (some a), s'.output.position) := by
  unfold ask at run
  split at run
  next engine output calls notices =>
  dsimp only at run
  split at run
  · cases run
    rw [Array.toList_push]
    exact List.getLast?_concat
  · cases run

theorem ask_extends {question : Ask σ α} {call : Option α → Call} {a : α}
    (run : ask question call s = .ok a s') :
    Extends s s' [] ([call (some a)].filter Call.isMilestone) := by
  obtain ⟨output, calls⟩ := ask_eq_ok run
  refine ⟨by rw [output, List.append_nil], ?_⟩
  rw [Session.milestones, calls, List.filter_append, Session.milestones]

end Run
end ApkArchive.Signing

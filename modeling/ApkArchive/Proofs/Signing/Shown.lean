import ApkArchive.Proofs.Signing.ReadBack
import ApkArchive.Proofs.Signing.Unchanged
import ApkArchive.Proofs.Zip.Archive

/-!
# Data that was shown can be shown again

An engine that answers alike in every state has looked at the same entries in the same sinks, and a
run that has succeeded has filled them. The data of an entry reads the same in the output as in the
input, so what was shown from the input can be shown from the output.
-/

namespace ApkArchive

/-- Every element of a list has had its turn in a successful loop. -/
theorem exists_step_of_foldlM {step : β → α → EStateM ε σ β} {l : List α} {b b' : β} {s s' : σ}
    (run : l.foldlM step b s = .ok b' s') {a : α} (mem : a ∈ l) :
    ∃ c t c' t', step c a t = .ok c' t' := by
  induction l generalizing b s with
  | nil => cases mem
  | cons first rest ih =>
    rw [List.foldlM_cons] at run
    obtain ⟨c, t, here, run⟩ := run_bind_eq_ok_iff.1 run
    rcases List.mem_cons.1 mem with rfl | later
    · exact ⟨b, s, c, t, here⟩
    · exact ih run later

namespace Signing

open Run

variable {engine : Engine σ} {looks : Stage → String → Option Sink} {keeps : String → Prop}
variable {additions : Option (List NewEntry)} {request : Option BlockRequest}
variable {config : Config} {input entries : View} {deflate : Bytes → Bytes} {s s' : Session σ}

/-! ### What a successful run has shown -/

/-- The only answer is the one that was given. -/
theorem Ask.Always.eq_of_ask {question : Ask σ α} {call : Option α → Call} {a b : α}
    (always : Ask.Always question a) (run : ask question call s = .ok b s') : b = a := by
  unfold ask at run
  split at run
  next state output calls notices =>
  obtain ⟨after, answered⟩ := always state
  have answered : question.run state = .ok a after := answered
  rw [answered] at run
  cases run
  rfl

theorem fed_of_showData? {stage : Stage} {found : LocalRecord} {sink : Sink} {u : Unit}
    (run : showData? engine stage entries found (some sink) s = .ok u s') :
    ∃ sink', found.emitData entries sink = .ok () sink' := by
  unfold showData? at run
  obtain ⟨_, _, _, run⟩ := run_bind_eq_ok_iff.1 run
  unfold show? at run
  cases fed : (found.emitData entries).run sink with
  | ok _ sink' => exact ⟨sink', fed⟩
  | error error sink' =>
    dsimp only at run
    rw [fed] at run
    cases run

theorem showable_of_settleEntry (predictable : engine.Predictable looks keeps additions request)
    {record : DirectoryRecord} {number offset : Nat} {found : LocalRecord} {settled : Fate × Nat}
    (named : keeps record.name)
    (located : LocalRecord.locate entries record entries.size = .ok found)
    (run : settleEntry engine config entries record number found offset s = .ok settled s') :
    Showable looks entries record := by
  unfold settleEntry at run
  obtain ⟨decision, _, decides, run⟩ := run_bind_eq_ok_iff.1 run
  obtain ⟨remark, always⟩ := predictable.inputEntry record.name named
  cases always.eq_of_ask decides
  obtain ⟨_, _, _, run⟩ := run_bind_eq_ok_iff.1 run
  obtain ⟨_, _, first, run⟩ := run_bind_eq_ok_iff.1 run
  obtain ⟨sink, _, asks, run⟩ := run_bind_eq_ok_iff.1 run
  cases (predictable.outputEntry record.name).eq_of_ask asks
  obtain ⟨_, _, second, run⟩ := run_bind_eq_ok_iff.1 run
  intro found' located' stage sink looking
  cases located'.symm.trans located
  cases stage with
  | input =>
    dsimp only at first
    rw [looking] at first
    exact fed_of_showData? first
  | output =>
    rw [looking] at second
    exact fed_of_showData? second

theorem showable_of_sweepEntry (predictable : engine.Predictable looks keeps additions request)
    {sweep sweep' : Sweep} {entry : DirectoryRecord × Nat} (named : keeps entry.1.name)
    (run : sweepEntry engine config entries sweep entry s = .ok sweep' s') :
    Showable looks entries entry.1 := by
  unfold sweepEntry at run
  obtain ⟨found, mapped, run⟩ := run_ofExcept_eq_ok_iff.1 run
  have located := mapError_eq_ok_iff.1 mapped
  obtain ⟨_, -, run⟩ := copyGap_eq_ok run
  obtain ⟨_, _, settles, -⟩ := run_bind_eq_ok_iff.1 run
  exact showable_of_settleEntry predictable named located settles

/-- Wherever the engine looks, a successful run has shown it the data of every entry. -/
theorem showable_of_sign (predictable : engine.Predictable looks (fun _ => True) additions request)
    {start : σ} {sink : Sink} {summary : Summary} {final : Session σ} {sections : Sections}
    {records : List DirectoryRecord}
    (run : (sign engine config input deflate).run { engine := start, output := sink } =
      .ok summary final) (archive : input.IsArchive sections records entries) :
    ∀ record ∈ records, Showable looks entries record := by
  unfold sign at run
  obtain ⟨-, run⟩ := run_guard_eq_ok (run_position_eq_ok run)
  obtain ⟨_, located, run⟩ := run_ofExcept_eq_ok_iff.1 run
  obtain ⟨_, _, _, run⟩ := run_bind_eq_ok_iff.1 run
  obtain ⟨directory, read, run⟩ := run_ofExcept_eq_ok_iff.1 run
  obtain ⟨_, parsed, run⟩ := run_ofExcept_eq_ok_iff.1 run
  obtain ⟨_, _, _, run⟩ := run_bind_eq_ok_iff.1 run
  obtain ⟨_, _, _, run⟩ := run_bind_eq_ok_iff.1 run
  obtain ⟨_, sliced, run⟩ := run_ofExcept_eq_ok_iff.1 run
  obtain ⟨_, _, sweeps, run⟩ := run_bind_eq_ok_iff.1 run
  obtain ⟨rfl, rfl, rfl⟩ := archive.unique ⟨located, ⟨directory, read, parsed⟩, sliced⟩
  intro record mem
  obtain ⟨number, listed⟩ := Directory.mem_iff_exists_mem_inFileOrder.1 mem
  unfold sweepEntries at sweeps
  obtain ⟨_, _, loop, _⟩ := run_bind_eq_ok_iff.1 sweeps
  obtain ⟨_, _, _, _, step⟩ := exists_step_of_foldlM loop listed
  exact showable_of_sweepEntry predictable trivial step

/-! ### What can be shown from the output -/

/-- The data of an entry can be shown from the output if it can be shown from the input. -/
theorem Outcome.showable_moved {outcome : Outcome config input deflate} {view : View} {rest : Bytes}
    (shows : view.Shows (outcome.body ++ rest)) {piece : Piece} (mem : piece ∈ outcome.pieces)
    (isKept : piece.isKept = true)
    (showable : Showable looks outcome.entries piece.record) :
    Showable looks view piece.moved := by
  obtain ⟨found, found', located, located', same⟩ := (outcome.readsAs shows mem isKept).data
  intro other at_other stage sink looking
  cases at_other.symm.trans located'
  rw [same]
  exact showable found located stage sink looking

end Signing
end ApkArchive

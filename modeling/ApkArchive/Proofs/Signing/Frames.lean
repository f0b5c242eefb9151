import ApkArchive.Proofs.Signing.Conduct
import ApkArchive.Proofs.Signing.Stages
import ApkArchive.Proofs.Zip.Growth

/-!
# What a part of a run leaves alone

Each part of a run makes calls of a few kinds, writes to the output or does not, and does nothing
else, whether it succeeds or fails. So it takes the session from one state to another by steps of
these sorts, and whatever all of them leave alone is the same before and after it:

    Moves step x: from every s, x ends in some t with step s t

A property of a run that depends on one part only is shown for this part, and all others keep it.
-/

namespace ApkArchive.Signing

open Run

/-- A writer has to do with the output only. -/
theorem Run.ensures_emit_of {action : Emit α} {P : Sink → Prop} {Q : α → Sink → Prop}
    {E : Error → Sink → Prop} (writes : Ensures P action Q E)
    (R : σ → Array (Call × Nat) → Prop) :
    Ensures (fun s => P s.output ∧ R s.engine s.calls) (emit action)
      (fun a s => Q a s.output ∧ R s.engine s.calls)
      fun error s => E error s.output ∧ R s.engine s.calls := by
  rintro ⟨engine, output, calls, notices⟩ ⟨pre, same⟩
  unfold emit
  dsimp only
  cases run : action.run output with
  | ok a output' => exact ⟨writes.ok pre run, same⟩
  | error error output' => exact ⟨writes.error pre run, same⟩

/-! ### Steps -/

/-- However the part of a run ends, it has made a step. -/
def Moves (step : Session σ → Session σ → Prop) (x : Run σ α) : Prop := ∀ s, step s (ending (x s))

/-- Steps that follow each other are one step, and a notice makes no difference. -/
class IsFrame (step : Session σ → Session σ → Prop) : Prop where
  trans : ∀ {s t u}, step s t → step t u → step s u
  notices : ∀ {engine output calls} notices notices',
    step ⟨engine, output, calls, notices⟩ ⟨engine, output, calls, notices'⟩

/-- A call may be made. -/
def Allows (step : Session σ → Session σ → Prop) (call : Call) : Prop :=
  ∀ engine engine' output calls notices, step ⟨engine, output, calls, notices⟩
    ⟨engine', output, calls.push (call, output.position), notices⟩

/-- Something may be written. -/
def AllowsWrites (step : Session σ → Session σ → Prop) : Prop :=
  ∀ engine output output' calls notices, Sink.Later output output' →
    step ⟨engine, output, calls, notices⟩ ⟨engine, output', calls, notices⟩

namespace Moves

variable {step : Session σ → Session σ → Prop}

/-- What all steps leave alone is left alone. -/
theorem ensures {x : Run σ α} (moves : Moves step x) {P : Session σ → Prop}
    (keeps : ∀ {s t}, step s t → P s → P t) : Ensures P x (fun _ => P) fun _ => P := by
  apply Ensures.of_runs
  · intro s a t pre run
    have moved := moves s
    rw [run] at moved
    exact keeps moved pre
  · intro s error t pre run
    have moved := moves s
    rw [run] at moved
    exact keeps moved pre

theorem of_ensures {x : Run σ α}
    (h : ∀ s, Ensures (fun s' => s' = s) x (fun _ => step s) fun _ => step s) : Moves step x := by
  intro s
  have moved := h s rfl
  cases run : x s with
  | ok a t => rwa [run] at moved
  | error error t => rwa [run] at moved

theorem ite {c : Prop} [Decidable c] {x y : Run σ α} (first : Moves step x)
    (second : Moves step y) : Moves step (if c then x else y) := by
  split
  · exact first
  · exact second

theorem position_bind {f : Nat → Run σ α} (rest : ∀ n, Moves step (f n)) :
    Moves step (position >>= f) := fun s => rest s.output.position s

theorem get_bind {f : Session σ → Run σ α} (rest : ∀ s, Moves step (f s)) :
    Moves step (get >>= f) := fun s => rest s s

theorem ask {question : Ask σ α} {call : Option α → Call}
    (allows : ∀ answer, Allows step (call answer)) : Moves step (ask question call) := by
  rintro ⟨engine, output, calls, notices⟩
  unfold Run.ask
  dsimp only
  cases question.run engine with
  | ok a engine' => exact allows (some a) engine engine' output calls notices
  | error failure engine' => exact allows none engine engine' output calls notices

theorem emit (allows : AllowsWrites step) {action : Emit α} {limit : Nat}
    (appends : Sink.Appends action limit) : Moves step (emit action) := by
  rintro ⟨engine, output, calls, notices⟩
  have later := appends output rfl
  unfold Run.emit EStateM.run
  dsimp only
  cases run : action output with
  | ok a output' =>
    rw [run] at later
    exact allows engine output output' calls notices later.1
  | error error output' =>
    rw [run] at later
    exact allows engine output output' calls notices later.1

variable [IsFrame step]

theorem refl (s : Session σ) : step s s := IsFrame.notices s.notices s.notices

theorem pure (a : α) : Moves step (pure a) := refl

theorem throw (error : Error) : Moves step (throw error : Run σ α) := refl

theorem bind {x : Run σ α} {f : α → Run σ β} (first : Moves step x)
    (rest : ∀ a, Moves step (f a)) : Moves step (x >>= f) := by
  apply of_ensures
  intro s
  refine Ensures.bind (Q := fun _ => step s) ?_ fun a => ?_
  · refine (first.ensures (P := step s) fun later so_far => IsFrame.trans so_far later).pre ?_
    rintro _ rfl
    exact refl _
  · exact (rest a).ensures fun later so_far => IsFrame.trans so_far later

theorem ofExcept_bind {result : Except Error α} {f : α → Run σ β}
    (rest : ∀ a, Moves step (f a)) : Moves step (ofExcept result >>= f) := by
  cases result with
  | ok a => exact rest a
  | error error => exact throw error

theorem guard {c : Prop} [Decidable c] {error : Error} {x : Run σ α} (rest : Moves step x) :
    Moves step (if c then (do MonadExcept.throw error; x) else x) := by
  split
  · exact throw error
  · exact rest

theorem note (notice : Notice) : Moves step (note notice) := fun s =>
  IsFrame.notices s.notices (s.notices.push notice)

theorem note? (notice : Option Notice) : Moves step (note? notice) := by
  cases notice with
  | none => exact pure ()
  | some notice => exact note notice

theorem foldlM {next : β → α → Run σ β} (moves : ∀ b a, Moves step (next b a)) (l : List α)
    (b : β) : Moves step (l.foldlM next b) := by
  induction l generalizing b with
  | nil => exact pure b
  | cons a rest ih =>
    rw [List.foldlM_cons]
    exact (moves b a).bind ih

end Moves

/-! ### The parts of a run -/

variable {engine : Engine σ} {config : Config} {step : Session σ → Session σ → Prop} [IsFrame step]

theorem moves_show? (shown : ∀ stage name data, Allows step (.inspected stage name data))
    (stage : Stage) (name : String) (data : Emit Unit) (sink : Option Sink) :
    Moves step (show? engine stage name data sink) := by
  unfold show?
  split
  · exact .pure ()
  · split
    · exact .throw _
    · exact .ask fun _ => shown _ _ _

/-- The calls that are made for the entries of the input. -/
structure AllowsEntries (step : Session σ → Session σ → Prop) : Prop where
  shown : ∀ stage name data, Allows step (.inspected stage name data)
  asked : ∀ name answer, Allows step (.inputEntry name answer)
  written : ∀ name answer, Allows step (.outputEntry name answer)
  writes : AllowsWrites step

section Entries

variable (allows : AllowsEntries step)
include allows

theorem moves_showData? (stage : Stage) (entries : View) (found : LocalRecord)
    (sink : Option Sink) : Moves step (showData? engine stage entries found sink) := by
  have shows : Moves step (show? engine stage found.name (found.emitData entries) sink) :=
    moves_show? allows.shown _ _ _ _
  exact .ite ((Moves.note _).bind fun _ => shows) shows

theorem moves_copyEntry (entries : View) (record : DirectoryRecord) (number : Nat)
    (found : LocalRecord) (offset : Nat) :
    Moves step (copyEntry config entries record number found offset) := by
  have copied {x : Run σ Nat} {fate : Fate} (notice : Notice) (moves : Moves step x) :
      Moves step (do let written ← x; note notice; return (fate, written)) :=
    moves.bind fun _ => (Moves.note _).bind fun _ => .pure _
  unfold copyEntry
  refine .ofExcept_bind fun _ => ?_
  dsimp only
  split
  · exact copied _ (.emit allows.writes
      (found.appends_copy entries (Nat.le_succ _) (Nat.succ_pos _)))
  · exact (Moves.note _).bind fun _ => copied _ (.emit allows.writes
      (found.appends_copyWithExtra entries _ (Nat.le_succ _) (.inl (Nat.lt_succ_self _))))

theorem moves_settleEntry (entries : View) (record : DirectoryRecord) (number : Nat)
    (found : LocalRecord) (offset : Nat) :
    Moves step (settleEntry engine config entries record number found offset) := by
  unfold settleEntry
  refine (Moves.ask (allows.asked _)).bind fun decision => (Moves.note? _).bind fun _ => ?_
  refine Moves.bind (moves_showData? allows _ _ _ _) fun _ => ?_
  cases decision.disposition with
  | replace => exact (Moves.note _).bind fun _ => .pure _
  | skip => exact (Moves.note _).bind fun _ => .pure _
  | keep =>
    exact (Moves.ask (allows.written _)).bind fun _ =>
      Moves.bind (moves_showData? allows _ _ _ _) fun _ => moves_copyEntry allows _ _ _ _ _

theorem moves_sweepEntries (entries : View) (records : List DirectoryRecord) :
    Moves step (sweepEntries engine config entries records) := by
  have fed (offset size : Nat) : Moves step (emit (entries.feed offset size)) :=
    .emit allows.writes (entries.appends_feed (Nat.le_succ _) (.inl (Nat.succ_pos _)))
  have swept (sweep : Sweep) (entry : DirectoryRecord × Nat) :
      Moves step (sweepEntry engine config entries sweep entry) := by
    unfold sweepEntry
    refine .ofExcept_bind fun found => ?_
    have rest (offset : Nat) : Moves step (do
        let settled ← settleEntry engine config entries entry.1 entry.2 found offset
        return Sweep.mk (max sweep.covered found.stop) (offset + settled.2)
          (settled.1 :: sweep.fates)) :=
      (moves_settleEntry allows _ _ _ _ _).bind fun _ => .pure _
    exact .ite ((Moves.note _).bind fun _ => (fed _ _).bind fun _ => rest _) (rest _)
  unfold sweepEntries
  refine (Moves.foldlM swept _ _).bind fun sweep => ?_
  exact .ite ((Moves.note _).bind fun _ => (fed _ _).bind fun _ => .pure _) (.pure _)

end Entries

theorem moves_completeOutput (engine : Engine σ) (written : Allows step .blockWritten)
    (writes : AllowsWrites step) (offset : Nat) (directory : Bytes) (size : Nat)
    (endRecord : EndRecord) (request : Option BlockRequest) :
    Moves step (completeOutput engine offset directory size endRecord request) := by
  have wrote (chunk : Bytes) : Moves step (emit (Sink.write chunk)) := .emit writes (.write chunk)
  unfold completeOutput
  refine Moves.bind ?_ fun moved => ?_
  · cases request with
    | none => exact .pure _
    | some request =>
      show Moves step (writeBlock engine endRecord offset request)
      unfold writeBlock
      refine (wrote _).bind fun _ => (wrote _).bind fun _ => ?_
      refine (Moves.note _).bind fun _ => .ofExcept_bind fun _ => ?_
      exact (Moves.ask fun _ => written).bind fun _ => .pure _
  · exact (Moves.emit writes (View.appends_feed _ (Nat.le_succ _) (.inl (Nat.succ_pos _)))).bind
      fun _ => (wrote _).bind fun _ => .pure _

section Closing

variable (rounds : ∀ shown answer, Allows step (.signingBlock shown answer))
include rounds

theorem moves_negotiate (multiple : Nat) (entries : ByteArray) (offset : Nat) (directory : Bytes)
    (attempts : Nat) (endRecord : EndRecord) :
    Moves step (negotiate engine multiple entries offset directory attempts endRecord) := by
  induction attempts generalizing endRecord with
  | zero => exact .throw _
  | succ attempts ih =>
    unfold negotiate
    refine (Moves.ask (rounds _)).bind fun request => ?_
    dsimp only
    refine .ite (.pure _) (.guard ?_)
    exact (Moves.note _).bind fun _ => .ofExcept_bind ih

theorem moves_writeDirectory (written : Allows step .blockWritten) (writes : AllowsWrites step)
    (inputEnd : EndRecord) (records : List DirectoryRecord) (offset : Nat) :
    Moves step (writeDirectory engine config inputEnd records offset) := by
  have agrees : Moves step (agree engine config inputEnd records offset) :=
    .guard (.guard (.ofExcept_bind fun _ => .get_bind fun _ => moves_negotiate rounds _ _ _ _ _ _))
  rw [writeDirectory_eq]
  exact agrees.bind fun _ => moves_completeOutput engine written writes offset _ _ _ _

end Closing

/-! ### Calls of other kinds -/

/-- The calls of a kind, and how much had been written at each of them. -/
def Session.only (session : Session σ) (kind : Call → Bool) : List (Call × Nat) :=
  session.calls.toList.filter fun call => kind call.1

/-- No call of a kind was made. -/
def NoCalls (kind : Call → Bool) (s t : Session σ) : Prop := t.only kind = s.only kind

/-- No call of a kind was made, and nothing was written. -/
def Silence (kind : Call → Bool) (s t : Session σ) : Prop :=
  t.output.bytes = s.output.bytes ∧ NoCalls kind s t

variable {kind : Call → Bool} {call : Call}

instance : IsFrame (NoCalls kind : Session σ → Session σ → Prop) where
  trans first second := second.trans first
  notices _ _ := rfl

instance : IsFrame (Silence kind : Session σ → Session σ → Prop) where
  trans first second := ⟨second.1.trans first.1, second.2.trans first.2⟩
  notices _ _ := ⟨rfl, rfl⟩

theorem allows_noCalls (other : kind call = false) :
    Allows (NoCalls kind : Session σ → Session σ → Prop) call := by
  intro engine engine' output calls notices
  simp [NoCalls, Session.only, other]

theorem allows_silence (other : kind call = false) :
    Allows (Silence kind : Session σ → Session σ → Prop) call :=
  fun engine engine' output calls notices =>
    ⟨rfl, allows_noCalls other engine engine' output calls notices⟩

theorem allowsWrites_noCalls :
    AllowsWrites (NoCalls kind : Session σ → Session σ → Prop) := fun _ _ _ _ _ _ => rfl

/-! ### What is added -/

/-- Calls were made and something was written, and what was there before still is. -/
structure Onward (s t : Session σ) : Prop where
  calls : s.calls.toList <+: t.calls.toList
  output : Sink.Later s.output t.output

instance : IsFrame (Onward : Session σ → Session σ → Prop) where
  trans first second := ⟨first.calls.trans second.calls, first.output.trans second.output⟩
  notices _ _ := ⟨List.prefix_refl _, .refl _⟩

theorem allows_onward (call : Call) : Allows (Onward : Session σ → Session σ → Prop) call := by
  intro engine engine' output calls notices
  refine ⟨?_, .refl _⟩
  simp

theorem allowsWrites_onward : AllowsWrites (Onward : Session σ → Session σ → Prop) :=
  fun _ _ _ _ _ later => ⟨List.prefix_refl _, later⟩

end ApkArchive.Signing

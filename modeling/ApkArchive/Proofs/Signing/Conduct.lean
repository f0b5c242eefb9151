import ApkArchive.Proofs.Signing.Protocol
import ApkArchive.Proofs.Signing.Stages
import ApkArchive.Proofs.Zip.Growth

/-!
# Runs follow the protocol

Each part of a run takes it from one phase to another, or stops on the way. A run that stops has
made no call after the one that failed: either the engine failed in its last call, or all its calls
were answered and something else went wrong. The padding of the comment can go wrong only while
the engine is asked for a signing block, and then nothing was written since the last entry.
-/

namespace ApkArchive.Signing

open Run

section Conduct

variable (engine : Engine σ) (start : σ) (setting : Setting)

/-- A run stands in a phase: its calls have led there, and the engine has answered all of them. -/
structure Stands (phase : Phase) (s : Session σ) : Prop where
  reaches : Reaches setting s.calls.toList phase
  replays : engine.Replays start (s.calls.toList.map (·.1)) s.engine

/-- A run stands in a phase, and has written so many bytes. -/
def StandsAt (place : Phase × Nat) (s : Session σ) : Prop :=
  Stands engine start setting place.1 s ∧ s.output.position = place.2

/-- How a run may stop that has begun to call the engine. -/
inductive Stops (error : Error) (s : Session σ) : Prop
  /-- Something else than the engine failed, and not the padding. -/
  | stopped {phase : Phase} (stands : Stands engine start setting phase s)
      (stuck : Stuck setting phase s.output.position) (other : error.isFromPadding = false)
  /-- The last answer does not fit, and the comment cannot be padded once more. -/
  | unpadded {records : List DirectoryRecord} {inquiries : List Inquiry} {last : Inquiry}
      (stands : Stands engine start setting (.asking records (inquiries ++ [last])) s)
      (stuck : Stuck setting (.asking records (inquiries ++ [last])) s.output.position)
      (misses : last.total % setting.multiple ≠ 0) (untouched : last.1.entries = s.output.contents)
      (reason : error = .convergence maxAttempts ∧ inquiries.length + 1 = maxAttempts ∨
        ∃ size, error = .fault (.commentTooLong size))
  /-- The engine failed in its last call. -/
  | failed {failure : Failure} (breaks : BreaksOff setting s.calls.toList)
      (fails : engine.FailsAfter start (s.calls.toList.map (·.1)) failure s.engine)
      (same : error = .engine failure)
      (untouched : ∀ shown written,
        s.calls.toList.getLast? = some (.signingBlock shown none, written) →
          shown.entries = s.output.contents)

/-- The part of a run takes it from one phase to the next one. What it has written by then depends
on its result. -/
def Follows (phase : Phase) (written : Nat) (x : Run σ α) (next : α → Phase × Nat) : Prop :=
  Ensures (StandsAt engine start setting (phase, written)) x
    (fun a => StandsAt engine start setting (next a)) (Stops engine start setting)

end Conduct

variable {engine : Engine σ} {start : σ} {setting : Setting}

/-! ### Steps of a run -/

namespace Run

/-- A call that the protocol allows takes the run to the next phase, and leaves the output alone. -/
theorem ensures_ask [Nonempty α] {question : Ask σ α} {form : Option α → Call}
    (poses : engine.Poses question form) {phase : Phase} {next : α → Phase} {R : Sink → Prop}
    (step : ∀ output, R output → ∀ a,
      Step setting phase (form (some a), output.position) (next a))
    (whole : ∀ output, R output → ∀ shown, form none = .signingBlock shown none →
      shown.entries = output.contents) :
    Ensures (fun s => Stands engine start setting phase s ∧ R s.output) (ask question form)
      (fun a s => Stands engine start setting (next a) s ∧ R s.output)
      (Stops engine start setting) := by
  rintro ⟨state, output, calls, notices⟩ ⟨stands, shape⟩
  unfold ask
  dsimp only
  have reaches : Reaches setting calls.toList phase := stands.reaches
  have replays : engine.Replays start (calls.toList.map (·.1)) state := stands.replays
  cases answered : question.run state with
  | ok a after =>
    refine ⟨⟨?_, ?_⟩, shape⟩
    · rw [Array.toList_push]
      exact reaches.step (step output shape a)
    · rw [Array.toList_push, List.map_append]
      exact replays.snoc poses answered
  | error failure after =>
    obtain ⟨a⟩ := ‹Nonempty α›
    refine .failed ?_ ?_ rfl ?_
    · refine ⟨calls.toList, phase, form (some a), output.position, next a, reaches,
        step output shape a, ?_⟩
      rw [Array.toList_push, poses.unanswered]
    · refine ⟨calls.toList.map (·.1), state, α, question, form, replays, poses, answered, ?_⟩
      rw [Array.toList_push, List.map_append]
      rfl
    · intro shown written last
      rw [Array.toList_push, List.getLast?_append, List.getLast?_singleton, Option.some_or,
        Option.some.injEq, Prod.mk.injEq] at last
      exact whole output shape shown last.1

/-- A writer appends to the output and calls nobody. If it fails, not all is written that must come
before the next call. -/
theorem ensures_emit {action : Emit α} {phase : Phase} {front written : Bytes} {limit : Nat} {a : α}
    (emits : Sink.Emits action a written) (appends : Sink.Appends action limit)
    (stuck : ∀ position < front.length + limit, Stuck setting phase position) :
    Ensures (fun s => Stands engine start setting phase s ∧ s.output.bytes = front) (emit action)
      (fun _ s => Stands engine start setting phase s ∧ s.output.bytes = front ++ written)
      (Stops engine start setting) := by
  rintro ⟨state, output, calls, notices⟩ ⟨⟨reaches, replays⟩, same⟩
  unfold emit
  dsimp only at same ⊢
  cases run : action.run output with
  | ok b output' => exact ⟨⟨reaches, replays⟩, same ▸ (emits run).2⟩
  | error error output' =>
    obtain ⟨-, short, other⟩ := (appends output).error rfl run
    rw [Sink.position_eq output, same] at short
    exact .stopped ⟨reaches, replays⟩ (stuck _ short) other

theorem ensures_note (notice : Notice) {phase : Phase} {R : Sink → Prop} :
    Ensures (fun s => Stands engine start setting phase s ∧ R s.output) (note notice)
      (fun _ s => Stands engine start setting phase s ∧ R s.output)
      (Stops engine start setting) :=
  fun _ pre => ⟨⟨pre.1.reaches, pre.1.replays⟩, pre.2⟩

theorem ensures_note? {R : σ → Sink → Array (Call × Nat) → Prop}
    {E : Error → Session σ → Prop} (notice : Option Notice) :
    Ensures (fun s => R s.engine s.output s.calls) (note? notice)
      (fun _ s => R s.engine s.output s.calls) E := by
  cases notice with
  | none => exact fun _ pre => pre
  | some notice => exact fun _ pre => pre

theorem ensures_position_bind {P : Session σ → Prop} {f : Nat → Run σ β}
    {Q : β → Session σ → Prop} {E : Error → Session σ → Prop}
    (rest : ∀ n, Ensures (fun s => P s ∧ s.output.position = n) (f n) Q E) :
    Ensures P (position >>= f) Q E := fun s pre => rest s.output.position ⟨pre, rfl⟩

end Run

namespace Follows

variable {phase : Phase} {written : Nat}

theorem pure {a : α} {next : α → Phase × Nat} (same : next a = (phase, written)) :
    Follows engine start setting phase written (pure a : Run σ α) next := by
  refine (Ensures.pure a).post ?_
  rintro _ s ⟨rfl, stands⟩
  rwa [same]

theorem throw {error : Error} (stuck : Stuck setting phase written)
    (other : error.isFromPadding = false) {next : α → Phase × Nat} :
    Follows engine start setting phase written (throw error : Run σ α) next :=
  Ensures.throw fun _ stands => .stopped stands.1 (stands.2 ▸ stuck) other

theorem bind {x : Run σ α} {f : α → Run σ β} {middle : α → Phase × Nat} {next : β → Phase × Nat}
    (first : Follows engine start setting phase written x middle)
    (rest : ∀ a, Follows engine start setting (middle a).1 (middle a).2 (f a) next) :
    Follows engine start setting phase written (x >>= f) next := Ensures.bind first rest

theorem ofExcept_bind {result : Except Error α} {f : α → Run σ β} {next : β → Phase × Nat}
    (stuck : ∀ error, result = .error error → Stuck setting phase written)
    (other : Excludes Error.isFromPadding result)
    (rest : ∀ a, result = .ok a → Follows engine start setting phase written (f a) next) :
    Follows engine start setting phase written (ofExcept result >>= f) next :=
  Ensures.ofExcept_bind (fun error _ failed stands =>
    .stopped stands.1 (stands.2 ▸ stuck error failed) (other error failed)) rest

theorem note (notice : Notice) :
    Follows engine start setting phase written (note notice : Run σ Unit)
      fun _ => (phase, written) :=
  fun _ stands => ⟨⟨stands.1.reaches, stands.1.replays⟩, stands.2⟩

theorem note? (notice : Option Notice) :
    Follows engine start setting phase written (note? notice : Run σ Unit)
      fun _ => (phase, written) := by
  cases notice with
  | none => exact pure rfl
  | some notice => exact note notice

theorem ite {c : Prop} [Decidable c] {x y : Run σ α} {next : α → Phase × Nat}
    (first : c → Follows engine start setting phase written x next)
    (second : ¬ c → Follows engine start setting phase written y next) :
    Follows engine start setting phase written (if c then x else y) next := Ensures.ite first second

theorem guard {c : Prop} [Decidable c] {error : Error} {x : Run σ α} {next : α → Phase × Nat}
    (stuck : c → Stuck setting phase written) (other : error.isFromPadding = false)
    (rest : ¬ c → Follows engine start setting phase written x next) :
    Follows engine start setting phase written
      (if c then (do MonadExcept.throw error; x) else x) next :=
  ite (fun fails => throw (stuck fails) other) rest

theorem ask [Nonempty α] {question : Ask σ α} {form : Option α → Call}
    (poses : engine.Poses question form) {next : α → Phase}
    (step : ∀ a, Step setting phase (form (some a), written) (next a))
    (other : ∀ shown, form none ≠ .signingBlock shown none) :
    Follows engine start setting phase written (ask question form)
      fun a => (next a, written) :=
  ensures_ask poses (R := fun output => output.position = written)
    (fun _ position a => position ▸ step a) fun _ _ shown asked => absurd asked (other shown)

/-- What is written next comes before the next call. -/
theorem emit_bind {action : Emit α} {f : α → Run σ β} {limit : Nat}
    {Q : β → Session σ → Prop} (appends : Sink.Appends action limit)
    (stuck : ∀ position < written + limit, Stuck setting phase position)
    (rest : ∀ a sink sink', sink.position = written → action sink = .ok a sink' →
      Ensures (StandsAt engine start setting (phase, sink'.position)) (f a) Q
        (Stops engine start setting)) :
    Ensures (StandsAt engine start setting (phase, written)) (emit action >>= f) Q
      (Stops engine start setting) := by
  refine Ensures.bind (Q := fun a s => ∃ sink, sink.position = written ∧
    action sink = .ok a s.output ∧ Stands engine start setting phase s) ?_ ?_
  · rintro ⟨state, output, calls, notices⟩ ⟨⟨reaches, replays⟩, same⟩
    unfold Run.emit
    dsimp only at same ⊢
    cases run : action.run output with
    | ok a output' => exact ⟨output, same, run, reaches, replays⟩
    | error error output' =>
      obtain ⟨-, short, other⟩ := (appends output).error rfl run
      exact .stopped ⟨reaches, replays⟩ (stuck _ (same ▸ short)) other
  · rintro a s ⟨sink, same, run, stands⟩
    exact rest a sink s.output same run ⟨stands, rfl⟩

theorem feed_bind {view : View} {offset size : Nat} {f : Unit → Run σ β}
    {Q : β → Session σ → Prop} (some_left : 0 < size)
    (stuck : ∀ position < written + size, Stuck setting phase position)
    (rest : Ensures (StandsAt engine start setting (phase, written + size)) (f ()) Q
      (Stops engine start setting)) :
    Ensures (StandsAt engine start setting (phase, written)) (emit (view.feed offset size) >>= f) Q
      (Stops engine start setting) := by
  refine emit_bind (view.appends_feed (Nat.le_refl size) (.inl some_left)) stuck ?_
  intro _ sink sink' same run
  have position : sink'.position = written + size := by
    rw [Sink.position_eq, (view.emits_feed _ _ run).2, List.length_append, view.length_bytes,
      ← same, Sink.position_eq]
  rwa [position]

end Follows

/-! ### Showing data -/

theorem follows_show? {stage : Stage} {name : String} {data : Emit Unit} {limit : Nat}
    (appends : Sink.Appends data limit) (sink : Option Sink) (written : Nat) (next : Phase) :
    Follows engine start setting (.thenShow stage name data sink written next) written
      (show? engine stage name data sink) fun _ => (next, written) := by
  unfold show?
  split
  · exact .pure rfl
  next sink =>
  split
  · next error _ failed =>
    exact .throw (.showing failed) ((appends sink).error rfl failed).2.2
  · next sink' fed =>
    exact .ask (.inspected stage name _) (fun _ => .inspected fed) fun _ => nofun

theorem follows_showData? {stage : Stage} {entries : View} {record : DirectoryRecord}
    {found : LocalRecord} (located : LocalRecord.locate entries record entries.size = .ok found)
    (sink : Option Sink) (written : Nat) (next : Phase) :
    Follows engine start setting
      (.thenShow stage record.name (found.emitData entries) sink written next) written
      (showData? engine stage entries found sink) fun _ => (next, written) := by
  obtain ⟨limit, appends⟩ := found.appends_emitData entries
  have shows : Follows engine start setting
      (.thenShow stage record.name (found.emitData entries) sink written next) written
      (show? engine stage record.name (found.emitData entries) sink) fun _ => (next, written) :=
    follows_show? appends sink written next
  unfold showData?
  rw [LocalRecord.name_of_locate located]
  exact .ite (fun _ => (Follows.note _).bind fun _ => shows) fun _ => shows

/-! ### Input entries -/

instance : Nonempty Decision := ⟨{ disposition := .keep }⟩

theorem excludes_fieldOffset (offset : Nat) : Excludes Error.isFromPadding (fieldOffset offset) :=
  .ite (.ok _) (.error rfl)

theorem fieldOffset_eq_error {offset : Nat} {error : Error}
    (failed : fieldOffset offset = .error error) : UInt32.size ≤ offset := by
  unfold fieldOffset at failed
  split at failed
  · cases failed
  · next large => exact Nat.le_of_not_lt large

variable {config : Config} {entries : View}

section Sweep

variable (same : setting.entries = entries) (alignment : setting.alignment = config.alignment)
include same alignment

/-- A kept entry is copied with the offset in its record and with its extra field, if they fit. -/
theorem follows_copyEntry (sweep : Sweep) {entry : DirectoryRecord × Nat} {found : LocalRecord}
    (located : LocalRecord.locate entries entry.1 entries.size = .ok found)
    (todo : List (DirectoryRecord × Nat)) :
    Follows engine start setting (setting.keep sweep entry found todo) (sweep.offsetOf found)
      (copyEntry config entries entry.1 entry.2 found (sweep.offsetOf found))
      fun r => (.deciding (sweep.next found r.1 r.2) todo, sweep.offsetOf found + r.2) := by
  subst same
  obtain ⟨layout, rfl, inside, has⟩ := LocalRecord.locate_sound located
  have room : layout.found.dataStart ≤ layout.found.size :=
    Nat.le_trans (Nat.le_add_right ..) layout.dataStart_le
  have long : 0 < layout.found.dataStart :=
    Nat.add_pos_left (Nat.add_pos_left (by decide) _) _
  unfold copyEntry
  refine .ofExcept_bind (fun error failed => ?_) (excludes_fieldOffset _) fun word field => ?_
  · rw [Setting.keep, if_neg fun fits => Nat.not_lt.2 (fieldOffset_eq_error failed) fits.1]
    exact .barred
  obtain ⟨offsetFits, rfl⟩ := fieldOffset_eq_ok_iff.1 field
  rw [← alignment]
  dsimp only
  cases plan : setting.alignment.plan layout.found (sweep.offsetOf layout.found) with
  | unchanged =>
    have size : (setting.planFor sweep layout.found).size layout.found = layout.found.size := by
      rw [Setting.planFor, plan]
      exact Nat.add_sub_cancel' room
    refine Follows.emit_bind (layout.found.appends_copy setting.entries (Nat.le_refl _) (by omega))
      (fun position early => .keep (by rwa [size])) ?_
    intro written sink sink' place run
    obtain ⟨rfl, bytes⟩ := LocalRecord.emits_copy _ _ run
    refine (Follows.note _).bind fun _ => Follows.pure ?_
    rw [Setting.keep, if_pos ⟨offsetFits, by rw [Setting.planFor, plan]; exact layout.extra_fits⟩,
      size, Setting.planFor, plan, Sink.position_eq, bytes, List.length_append,
      View.length_bytes, ← Sink.position_eq, place]
  | realign alignment extra =>
    have size : (setting.planFor sweep layout.found).size layout.found =
        layout.found.extraStart + extra.length + (layout.found.size - layout.found.dataStart) := by
      rw [Setting.planFor, plan]
      rfl
    have stays : layout.found.start + layout.found.dataStart +
        (layout.found.size - layout.found.dataStart) ≤ setting.entries.size := by
      have start : layout.found.start = entry.1.localOffset.toNat := rfl
      have stop : layout.found.size = layout.bytes.length := rfl
      omega
    refine (Follows.note _).bind fun _ => Follows.emit_bind
      (layout.found.appends_copyWithExtra setting.entries extra (Nat.le_refl _) (.inr stays))
      (fun position early => .keep (by rwa [size])) ?_
    intro written sink sink' place run
    obtain ⟨fits, bytes, rfl, -⟩ := LocalRecord.copyWithExtra_eq_ok layout has run
    refine (Follows.note _).bind fun _ => Follows.pure ?_
    rw [Setting.keep, if_pos ⟨offsetFits, by rw [Setting.planFor, plan]; exact fits⟩,
      size, Setting.planFor, plan, Sink.position_eq, bytes, List.length_append,
      ← Sink.position_eq, place, layout.length_withExtra fits]

theorem follows_settleEntry (sweep : Sweep) {entry : DirectoryRecord × Nat} {found : LocalRecord}
    (located : LocalRecord.locate entries entry.1 entries.size = .ok found)
    (todo : List (DirectoryRecord × Nat)) :
    Follows engine start setting (.deciding sweep (entry :: todo)) (sweep.offsetOf found)
      (settleEntry engine config entries entry.1 entry.2 found (sweep.offsetOf found))
      fun r => (.deciding (sweep.next found r.1 r.2) todo, sweep.offsetOf found + r.2) := by
  have copied : Follows engine start setting _ _
      (copyEntry config entries entry.1 entry.2 found (sweep.offsetOf found)) _ :=
    follows_copyEntry same alignment sweep located todo
  subst same
  unfold settleEntry
  refine (Follows.ask (.inputEntry _) (fun _ => .inputEntry located) fun _ => nofun).bind
    fun decision => ?_
  refine (Follows.note? _).bind fun _ =>
    Follows.bind (follows_showData? located _ _ _) fun _ => ?_
  cases decision.disposition with
  | replace => exact (Follows.note _).bind fun _ => .pure rfl
  | skip => exact (Follows.note _).bind fun _ => .pure rfl
  | keep =>
    refine (Follows.ask (.outputEntry _) (fun _ => .outputEntry) fun _ => nofun).bind
      fun sink => ?_
    exact Follows.bind (follows_showData? located _ _ _) fun _ => copied

/-- One entry takes the sweep of the phase to the sweep that is returned. -/
theorem follows_sweepEntry (sweep : Sweep) (entry : DirectoryRecord × Nat)
    (todo : List (DirectoryRecord × Nat)) :
    Follows engine start setting (.deciding sweep (entry :: todo)) sweep.offset
      (sweepEntry engine config entries sweep entry)
      fun sweep => (.deciding sweep todo, sweep.offset) := by
  unfold sweepEntry
  refine .ofExcept_bind (fun error lost => ?_) ?_ fun found mapped => ?_
  · cases result : LocalRecord.locate entries entry.1 entries.size with
    | ok found =>
      rw [result] at lost
      cases lost
    | error error => exact .of_unlocated (same ▸ result)
  · exact (LocalRecord.excludes_locate _ _ _).mapError (Error.isFromPadding_withRecord _)
  have located := mapError_eq_ok_iff.1 mapped
  have settled : Follows engine start setting (.deciding sweep (entry :: todo))
      (sweep.offsetOf found) (do
        let settled ←
          settleEntry engine config entries entry.1 entry.2 found (sweep.offsetOf found)
        return sweep.next found settled.1 settled.2)
      fun sweep => (.deciding sweep todo, sweep.offset) :=
    (follows_settleEntry same alignment sweep located todo).bind fun _ => .pure rfl
  refine .ite (fun some_left => ?_) fun none_left => ?_
  · refine (Follows.note _).bind fun _ =>
      Follows.feed_bind some_left (fun position early => ?_) settled
    exact .of_gap (same ▸ located) early
  · have start : sweep.offsetOf found = sweep.offset := by
      rw [Sweep.offsetOf, Nat.eq_zero_of_not_pos none_left, Nat.add_zero]
    refine settled.pre fun s stands => ?_
    rwa [start]

/-- The loop keeps the entries left to decide, and ends with the bytes after all of them. -/
theorem ensures_sweepEntries {records : List DirectoryRecord}
    (order : setting.order = Directory.inFileOrder records) :
    Ensures (StandsAt engine start setting (.deciding {} setting.order, 0))
      (sweepEntries engine config entries records)
      (fun sweep s => ∃ last, sweep = { last with offset := last.offsetAfter entries } ∧
        StandsAt engine start setting (.deciding last [], sweep.offset) s)
      (Stops engine start setting) := by
  have swept : Ensures (StandsAt engine start setting (.deciding {} setting.order, 0))
      ((Directory.inFileOrder records).foldlM (sweepEntry engine config entries) {})
        (fun last => StandsAt engine start setting (.deciding last [], last.offset))
        (Stops engine start setting) := by
    let left (todo : List (DirectoryRecord × Nat)) (sweep : Sweep) : Session σ → Prop :=
      StandsAt engine start setting (.deciding sweep todo, sweep.offset)
    rw [order]
    exact Ensures.foldlM (I := left)
      (fun entry rest sweep => follows_sweepEntry same alignment sweep entry rest) _ _
  unfold sweepEntries
  refine swept.bind fun last => ?_
  have ends : Ensures
      (StandsAt engine start setting (.deciding last [], last.offsetAfter entries))
      (pure { last with offset := last.offsetAfter entries } : Run σ Sweep)
      (fun sweep s => ∃ last, sweep = { last with offset := last.offsetAfter entries } ∧
        StandsAt engine start setting (.deciding last [], sweep.offset) s)
      (Stops engine start setting) := by
    refine (Ensures.pure _).post ?_
    rintro _ s ⟨rfl, stands⟩
    exact ⟨last, rfl, stands⟩
  refine Ensures.ite (fun some_left => ?_) fun none_left => ?_
  · refine Ensures.bind (Follows.note _) fun _ =>
      Follows.feed_bind some_left (fun position early => ?_) ends
    exact .of_tail (same ▸ early)
  · have stays : last.offsetAfter entries = last.offset := by
      rw [Sweep.offsetAfter, Nat.eq_zero_of_not_pos none_left, Nat.add_zero]
    refine ends.pre fun s stands => ?_
    rwa [stays]

end Sweep

/-! ### New entries -/

/-- A new entry leads nowhere if there is no record for it. -/
theorem Setting.add_of_none {kept : List DirectoryRecord} {additions : Additions} {entry : NewEntry}
    (none : setting.newRecord? (newStamp kept) additions.offset entry = none)
    (todo : List NewEntry) : setting.add kept additions entry todo = .barred := by
  rw [add, none]

theorem Setting.add_of_some {kept : List DirectoryRecord} {additions : Additions} {entry : NewEntry}
    {todo : List NewEntry} {record : DirectoryRecord}
    (made : setting.newRecord? (newStamp kept) additions.offset entry = some record) :
    setting.add kept additions entry todo =
      .adding kept {
        records := record :: additions.records
        names := additions.names.insert entry.name
        offset := additions.offset + setting.newSize entry } todo := by
  rw [add, made]

section Additions

variable {deflate : Bytes → Bytes} (compresses : setting.deflate = deflate)
include compresses

theorem follows_addEntry (kept : List DirectoryRecord) (additions : Additions)
    (entry : NewEntry) (todo : List NewEntry) :
    Follows engine start setting (.adding kept additions (entry :: todo)) additions.offset
      (addEntry engine deflate (newStamp kept) additions entry)
      fun additions => (.adding kept additions todo, additions.offset) := by
  have barred (unfit : ¬ (additions.offset < UInt32.size ∧ entry.data.length < UInt32.size ∧
      (deflate entry.data).length < UInt32.size)) (written : Nat) :
      Stuck setting (setting.add kept additions entry todo) written := by
    rw [Setting.add_of_none (if_neg (compresses ▸ unfit))]
    exact .barred
  unfold addEntry
  dsimp only
  refine .guard .of_taken rfl fun fresh => ?_
  refine (Follows.ask (.outputEntry _) (fun _ => .newEntry (Bool.eq_false_iff.2 fresh))
    fun _ => nofun).bind fun sink => ?_
  refine (follows_show? (.write _) sink _ _).bind fun _ => ?_
  refine .ofExcept_bind (fun error failed => ?_) (excludes_fieldOffset _) fun word field => ?_
  · exact barred (fun fits => Nat.not_lt.2 (fieldOffset_eq_error failed) fits.1) _
  obtain ⟨offsetFits, rfl⟩ := fieldOffset_eq_ok_iff.1 field
  refine .guard (fun large => ?_) rfl fun small => ?_
  · exact barred (fun fits => Nat.not_lt.2 large fits.2.1) _
  refine Follows.emit_bind (LocalRecord.appends_emitNew _ _ _ _ _)
    (fun position early => .add (by rwa [Setting.newSize, compresses])) ?_
  intro written sink sink' place run
  obtain ⟨short, rfl, position⟩ := LocalRecord.emitNew_position run
  have fits : additions.offset < UInt32.size ∧ entry.data.length < UInt32.size ∧
      (deflate entry.data).length < UInt32.size := ⟨offsetFits, Nat.lt_of_not_le small, short⟩
  have recorded {result : Except Error DirectoryRecord}
      (same : DirectoryRecord.newDeflated entry.name (newStamp kept) (Crc32.checksum entry.data)
        (UInt32.ofNat (deflate entry.data).length) (UInt32.ofNat entry.data.length)
          (UInt32.ofNat additions.offset) = result) :
      setting.newRecord? (newStamp kept) additions.offset entry = result.toOption := by
    rw [Setting.newRecord?, compresses, if_pos fits, same]
  refine Follows.ofExcept_bind (fun error failed => ?_)
    (DirectoryRecord.excludes_newDeflated _ _ _ _ _ _) fun record made =>
      (Follows.note _).bind fun _ => .pure ?_
  · rw [Setting.add_of_none (recorded failed)]
    exact .barred
  · rw [Setting.add_of_some (recorded made), Setting.newSize, compresses, position, place]

/-- The loop keeps the new entries that are left to write. -/
theorem follows_addEntries (sweep : Sweep) :
    Follows engine start setting (.deciding sweep []) (sweep.offsetAfter setting.entries)
      (addEntries engine deflate sweep.records (sweep.offsetAfter setting.entries))
      fun r => (.asking (sweep.records ++ r.1) [], r.2) := by
  unfold addEntries
  refine (Follows.ask .newEntries (fun _ => .newEntries) fun _ => nofun).bind fun answer => ?_
  cases answer with
  | none =>
    refine Follows.pure ?_
    rw [List.append_nil]
    rfl
  | some entries =>
    let left (todo : List NewEntry) (additions : Additions) : Session σ → Prop :=
      StandsAt engine start setting (.adding sweep.records additions todo, additions.offset)
    have added : Follows engine start setting
        (.supply sweep.records (sweep.offsetAfter setting.entries) (some entries))
        (sweep.offsetAfter setting.entries)
        (entries.foldlM (addEntry engine deflate (newStamp sweep.records)) {
          names := .ofList (sweep.records.map (·.name))
          offset := sweep.offsetAfter setting.entries })
        fun additions => (.adding sweep.records additions [], additions.offset) :=
      Ensures.foldlM (I := left)
        (fun entry rest additions => follows_addEntry compresses _ additions entry rest) _ _
    exact added.bind fun additions =>
      (Follows.ask .newEntriesWritten (fun _ => .newEntriesWritten) fun _ => nofun).bind fun _ =>
        .pure rfl

end Additions

/-- The inquiry with which a negotiation ends. -/
def Inquiry.ofLast (entries : ByteArray) (directory : Bytes)
    (last : EndRecord × Option BlockRequest) : Inquiry :=
  ({ entries, directory, endRecord := last.1 }, last.2)

theorem Inquiry.total_ofLast (entries : ByteArray) (directory : Bytes)
    (last : EndRecord × Option BlockRequest) :
    (Inquiry.ofLast entries directory last).total = entries.size +
      (BlockRequest.orEmpty last.2).size + directory.length + last.1.encode.length := by
  obtain ⟨endRecord, answer⟩ := last
  cases answer <;> rfl

/-- The induction is on the attempts that are left; together with the inquiries that were made they
are as many as are allowed. Nothing is written, whatever the engine answers. -/
theorem ensures_negotiate {records : List DirectoryRecord} {entries : ByteArray} {directory : Bytes}
    {offset : Nat} (counts : offset = entries.size)
    (unsigned : ∀ endRecord, Unsigned.Fits { entries, directory, endRecord } records)
    (attempts : Nat) {endRecord : EndRecord} {inquiries : List Inquiry} (some_left : 0 < attempts)
    (allowed : inquiries.length + attempts = maxAttempts)
    (asks : setting.Asks inquiries { entries, directory, endRecord }) :
    Ensures
      (fun s => Stands engine start setting (.asking records inquiries) s ∧
        s.output.contents = entries)
      (negotiate engine setting.multiple entries offset directory attempts endRecord)
      (fun last s => (∃ before, Stands engine start setting
          (.asking records (before ++ [.ofLast entries directory last])) s) ∧
        (Inquiry.ofLast entries directory last).total % setting.multiple = 0 ∧
          s.output.contents = entries)
      (Stops engine start setting) := by
  subst counts
  induction attempts generalizing endRecord inquiries with
  | zero => exact absurd some_left (Nat.lt_irrefl 0)
  | succ attempts ih =>
    let shown : Unsigned := { entries, directory, endRecord }
    let asking (answer : Option BlockRequest) : Phase :=
      .asking records (inquiries ++ [(shown, answer)])
    let same (output : Sink) : Prop := output.contents = entries
    have asked : Ensures
        (fun s => Stands engine start setting (.asking records inquiries) s ∧ same s.output)
        (ask (engine.signingBlock shown) (.signingBlock shown))
        (fun answer s => Stands engine start setting (asking answer) s ∧ same s.output)
        (Stops engine start setting) := by
      refine ensures_ask (.signingBlock shown) ?_ ?_
      · intro output same answer
        have position : output.position = shown.entries.size := congrArg ByteArray.size same
        rw [position]
        exact .signingBlock asks (unsigned endRecord)
      · rintro output same _ ⟨⟩
        exact same.symm
    unfold negotiate
    refine asked.bind fun request => ?_
    dsimp only
    refine .ite (fun fits => ?_) fun misses => ?_
    · rintro s ⟨stands, same⟩
      exact ⟨⟨inquiries, stands⟩, fits, same⟩
    have misses : Inquiry.total (shown, request) % setting.multiple ≠ 0 := misses
    refine .guard ?_ fun more => ?_
    · rintro s none_left ⟨stands, same⟩
      have many : inquiries.length + 1 = maxAttempts := by omega
      refine .unpadded stands (.of_misses misses fun next again => ?_) misses same.symm
        (.inl ⟨rfl, many⟩)
      have few := again.length_lt
      rw [List.length_append, List.length_singleton, many] at few
      exact Nat.lt_irrefl _ few
    refine (ensures_note _).bind fun _ => .ofExcept_bind ?_ fun next padded => ?_
    · rintro error s failed ⟨stands, same⟩
      refine .unpadded stands (.of_misses misses fun next again => ?_) misses same.symm
        (.inr (EndRecord.mapError_padComment_eq_error failed))
      obtain ⟨-, endRecord, -, padded⟩ := again.of_concat
      have went := (congrArg (·.mapError Error.fault) padded).symm.trans failed
      cases went
    · refine ih (by omega) (by rw [List.length_append]; simp only [List.length_singleton]; omega) ?_
      exact .again (by omega) misses (mapError_eq_ok_iff.1 padded)

/-- The block is written, and then the engine is told. -/
theorem ensures_writeBlock {records : List DirectoryRecord} {shown : Unsigned}
    {request : BlockRequest} {endRecord : EndRecord} {before : List Inquiry} {offset : Nat}
    (counts : offset = shown.entries.size)
    (fits : shown.total (some request) % setting.multiple = 0) :
    Ensures
      (fun s =>
        Stands engine start setting (.asking records (before ++ [(shown, some request)])) s ∧
          s.output.bytes = shown.entries.data.toList)
      (writeBlock engine endRecord offset request)
      (fun moved s => Stands engine start setting (.sealed (before ++ [(shown, some request)])) s ∧
        s.output.bytes = shown.entries.data.toList ++ request.bytes ∧
          moved.comment = endRecord.comment)
      (Stops engine start setting) := by
  subst counts
  have size : shown.entries.data.toList.length = shown.entries.size := by simp
  have told (offsetFits : shown.entries.size + request.size < UInt32.size) : Ensures
      (fun s =>
        Stands engine start setting (.asking records (before ++ [(shown, some request)])) s ∧
          s.output.bytes = shown.entries.data.toList ++ request.bytes)
      (ask engine.blockWritten fun _ => .blockWritten)
      (fun _ s => Stands engine start setting (.sealed (before ++ [(shown, some request)])) s ∧
        s.output.bytes = shown.entries.data.toList ++ request.bytes)
      (Stops engine start setting) := by
    refine ensures_ask (R := fun output => output.bytes = _) .blockWritten ?_ fun _ _ _ => nofun
    intro output same _
    have position : output.position = shown.entries.size + request.size := by
      rw [Sink.position_eq, same, List.length_append, BlockRequest.length_bytes, size]
    rw [position]
    exact .blockWritten fits offsetFits
  unfold writeBlock
  refine (ensures_emit (Sink.emits_write _) (.write _) fun position early =>
    .of_block fits (.inl ?_)).bind fun _ => ?_
  · rw [Bytes.length_zeros, size] at early
    exact Nat.lt_of_lt_of_le early (Nat.add_le_add_left (Nat.le_add_right ..) _)
  refine (ensures_emit (Sink.emits_write _) (.write _) fun position early =>
    .of_block fits (.inl ?_)).bind fun _ => ?_
  · rwa [List.length_append, Bytes.length_zeros, size, Nat.add_assoc] at early
  refine (ensures_note (R := fun output => output.bytes = _) _).bind fun _ => ?_
  refine .ofExcept_bind ?_ fun moved field => ?_
  · rintro error s failed ⟨stands, -⟩
    exact .stopped stands (.of_block fits (.inr (fieldOffset_eq_error failed)))
      (excludes_fieldOffset _ error failed)
  rw [List.append_assoc]
  refine (told (fieldOffset_eq_ok_iff.1 field).1).bind fun _ => (Ensures.pure _).post ?_
  rintro moved s ⟨rfl, stands, same⟩
  exact ⟨stands, same, rfl⟩

/-- What is written after the block. -/
theorem ensures_emitEnd (records : List DirectoryRecord) (endRecord : EndRecord) {phase : Phase}
    {front : Bytes} (n : Nat)
    (stuck : ∀ position < front.length + (Directory.size records + endRecord.encode.length),
      Stuck setting phase position) :
    Ensures (fun s => Stands engine start setting phase s ∧ s.output.bytes = front)
      (do
        emit ((View.ofBytes (Directory.encode records)).feed 0 (Directory.size records))
        emit (Sink.write endRecord.encode)
        return n)
      (fun _ s => Stands engine start setting phase s ∧
        s.output.bytes = front ++ Directory.encode records ++ endRecord.encode)
      (Stops engine start setting) := by
  have shows := View.shows_ofBytes (Directory.encode records)
  have inside : 0 + Directory.size records ≤ (View.ofBytes (Directory.encode records)).size :=
    Nat.le_of_eq (by rw [shows.size, Directory.size_eq, Nat.zero_add])
  have fed := View.emits_feed (View.ofBytes (Directory.encode records)) 0 (Directory.size records)
  have whole := shows.contents
  rw [shows.size, ← Directory.size_eq] at whole
  rw [whole] at fed
  refine (ensures_emit fed (View.appends_feed _ (Nat.le_refl _) (.inr inside))
    fun position early => stuck position (by omega)).bind fun _ => ?_
  refine (ensures_emit (Sink.emits_write _) (.write _) fun position early =>
    stuck position ?_).bind fun _ => ?_
  · rw [List.length_append, ← Directory.size_eq] at early
    omega
  · exact (Ensures.pure n).post fun _ _ post => post.2

section Ending

variable {config : Config} {records : List DirectoryRecord} {offset : Nat}

/-- What does not fit into the end record is found before the engine is asked. -/
theorem ensures_agree (multiple : setting.multiple = max 1 (config.sizeMultiple.getD 1)) :
    Ensures (fun s => StandsAt engine start setting (.asking records [], offset) s ∧
        setting.complete s.output.contents records)
      (agree engine config setting.endRecord records offset)
      (fun last s =>
        (∃ before, Stands engine start setting
          (.asking records (before ++ [.ofLast s.output.contents (Directory.encode records) last]))
          s) ∧
        offset = s.output.contents.size ∧
          (Inquiry.ofLast s.output.contents (Directory.encode records) last).total %
            setting.multiple = 0)
      (Stops engine start setting) := by
  have stops {error : Error} (other : error.isFromPadding = false) {s : Session σ}
      (stands : StandsAt engine start setting (.asking records [], offset) s)
      (unfit : ∀ shown : Unsigned, shown.entries.size = offset → ¬ shown.Fits records) :
      Stops engine start setting error s :=
    .stopped stands.1 (.of_unfit (stands.2.symm ▸ unfit)) other
  unfold agree
  dsimp only
  refine .guard (fun _ large pre => stops rfl pre.1 fun shown _ fits =>
    Nat.not_lt.2 fits.size large) fun sizeFits => ?_
  refine .guard (fun _ many pre => stops rfl pre.1 fun shown _ fits =>
    Nat.not_lt.2 many fits.count) fun countFits => ?_
  refine .ofExcept_bind ?_ fun word field => ?_
  · rintro error s failed ⟨stands, -⟩
    refine stops (excludes_fieldOffset _ error failed) stands fun shown same fits => ?_
    exact Nat.not_lt.2 (fieldOffset_eq_error failed) (same ▸ fits.offset)
  refine Ensures.get_bind fun s ⟨⟨stands, position⟩, complete⟩ => ?_
  obtain ⟨offsetFits, rfl⟩ := fieldOffset_eq_ok_iff.1 field
  have counts : offset = s.output.contents.size := position.symm
  rw [← multiple]
  have unsigned (endRecord : EndRecord) : Unsigned.Fits
      { entries := s.output.contents, directory := Directory.encode records, endRecord }
        records :=
    ⟨rfl, Nat.lt_of_not_le countFits, Nat.le_of_not_lt sizeFits, counts ▸ offsetFits⟩
  have asks := Setting.Asks.first complete
  rw [← counts] at asks
  refine ((ensures_negotiate counts unsigned maxAttempts (by decide) rfl asks).pre ?_).post ?_
  · rintro _ rfl
    exact ⟨stands, rfl⟩
  · rintro last s' ⟨asked, fits, same⟩
    rw [same]
    exact ⟨asked, counts, fits⟩

/-- Block, directory and end record are as long as the engine was told. -/
theorem ensures_completeOutput {entries : ByteArray} {before : List Inquiry}
    (last : EndRecord × Option BlockRequest) (counts : offset = entries.size)
    (fits : (Inquiry.ofLast entries (Directory.encode records) last).total % setting.multiple =
      0) :
    Ensures
      (fun s => Stands engine start setting
          (.asking records (before ++ [.ofLast entries (Directory.encode records) last])) s ∧
        s.output.bytes = entries.data.toList)
      (completeOutput engine offset (Directory.encode records) (Directory.size records) last.1
        last.2)
      (fun _ s => ∃ phase before last,
        (Stands engine start setting phase s ∧ s.output.position = Inquiry.total last) ∧
          Step setting phase (.finished, Inquiry.total last) (.done (before ++ [last])))
      (Stops engine start setting) := by
  obtain ⟨endRecord, request⟩ := last
  have total := Inquiry.total_ofLast entries (Directory.encode records) (endRecord, request)
  have length : entries.data.toList.length = entries.size := by simp
  rw [← Directory.size_eq, ← length, Nat.add_assoc] at total
  unfold completeOutput
  cases request with
  | none =>
    rw [Option.elim_none, pure_bind]
    refine (ensures_emitEnd records endRecord _ fun position early =>
      .of_end fits (Nat.lt_of_lt_of_eq early total.symm)).post ?_
    rintro _ ended ⟨stands, wrote⟩
    refine ⟨_, _, _, ⟨stands, ?_⟩, .finished fits⟩
    rw [Sink.position_eq, wrote, List.append_assoc, List.length_append, List.length_append,
      ← Directory.size_eq]
    exact total.symm
  | some request =>
    rw [Option.elim_some]
    refine (ensures_writeBlock counts fits).bind fun moved => ?_
    rintro s ⟨stands, bytes, comment⟩
    have total : (Inquiry.ofLast entries (Directory.encode records)
        (endRecord, some request)).total = (entries.data.toList ++ request.bytes).length +
          (Directory.size records + moved.encode.length) := by
      rw [List.length_append, BlockRequest.length_bytes, EndRecord.length_encode, comment,
        ← EndRecord.length_encode]
      exact total
    refine (ensures_emitEnd records moved _ fun position early =>
      .of_sealed (Nat.lt_of_lt_of_eq early total.symm)).post ?_ ⟨stands, bytes⟩
    rintro _ ended ⟨stands, wrote⟩
    refine ⟨_, _, _, ⟨stands, ?_⟩, .finishedSealed⟩
    rw [Sink.position_eq, wrote, total, List.length_append, List.length_append,
      ← Directory.size_eq, Nat.add_assoc]

theorem ensures_writeDirectory (multiple : setting.multiple = max 1 (config.sizeMultiple.getD 1)) :
    Ensures (fun s => StandsAt engine start setting (.asking records [], offset) s ∧
        setting.complete s.output.contents records)
      (writeDirectory engine config setting.endRecord records offset)
      (fun _ s => ∃ phase before last,
        (Stands engine start setting phase s ∧ s.output.position = Inquiry.total last) ∧
          Step setting phase (.finished, Inquiry.total last) (.done (before ++ [last])))
      (Stops engine start setting) := by
  rw [writeDirectory_eq]
  refine (ensures_agree multiple).bind fun last => ?_
  rintro s ⟨⟨before, stands⟩, counts, fits⟩
  exact ensures_completeOutput last counts fits ⟨stands, rfl⟩

end Ending

end ApkArchive.Signing

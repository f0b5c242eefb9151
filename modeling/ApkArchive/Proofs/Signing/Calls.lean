import ApkArchive.Proofs.Signing.Conduct
import ApkArchive.Proofs.Signing.Outcome
import ApkArchive.Proofs.Zip.Archive

/-!
# The calls of a whole run

A run that cannot read the input as an archive makes no call and writes nothing. Every other run
follows the protocol of that archive until it is done or stops; it is done exactly if it succeeds,
and then the last call comes after the last byte.

    opening ──calls──▶ done    the run succeeds
    opening ──calls──▶ stuck   the run stops, and no call is left to make
-/

namespace ApkArchive.Signing

open Run

/-- What an archive and the options of a run settle before the first entry is decided. -/
def Setting.of (config : Config) (input : View) (deflate : Bytes → Bytes) (sections : Sections)
    (records : List DirectoryRecord) (entries : View) : Setting where
  block := sections.signingBlock?.map (·.contents)
  entries
  order := Directory.inFileOrder records
  endRecord := sections.endRecord
  alignment := config.alignment
  deflate
  complete shown directory := ∃ outcome : Outcome config input deflate,
    shown.data.toList = outcome.body ∧ directory = outcome.directory
  multiple := max 1 (config.sizeMultiple.getD 1)

namespace Setting

/-- The setting is that of a run on the archive: its entries are to be decided once each, in the
order in which they stand in the archive, and to be written with the options of the run; the output
is complete if it has everything that comes before the signing block. -/
structure Suits (setting : Setting) (config : Config) (input : View) (deflate : Bytes → Bytes) :
    Prop where
  archive : ∃ sections records, input.IsArchive sections records setting.entries ∧
    setting.order.Perm records.zipIdx ∧ setting.block = sections.signingBlock?.map (·.contents) ∧
      setting.endRecord = sections.endRecord
  ascending : setting.order.Pairwise fun a b => a.1.localOffset.toNat ≤ b.1.localOffset.toNat
  alignment : setting.alignment = config.alignment
  compression : setting.deflate = deflate
  complete : ∀ shown directory, setting.complete shown directory →
    ∃ outcome : Outcome config input deflate,
      shown.data.toList = outcome.body ∧ directory = outcome.directory
  multiple : setting.multiple = max 1 (config.sizeMultiple.getD 1)

theorem suits_of (config : Config) {input : View} (deflate : Bytes → Bytes) {sections : Sections}
    {records : List DirectoryRecord} {entries : View}
    (archive : input.IsArchive sections records entries) :
    (Setting.of config input deflate sections records entries).Suits config input deflate where
  archive :=
    ⟨sections, records, archive, Directory.inFileOrder_perm records, rfl, rfl⟩
  ascending := Directory.pairwise_inFileOrder records
  alignment := rfl
  compression := rfl
  complete _ _ complete := complete
  multiple := rfl

end Setting

/-! ### How many inquiries there are -/

namespace Setting

variable {setting : Setting} {inquiries : List Inquiry}

theorem Trail.length_le (trail : setting.Trail inquiries) : inquiries.length ≤ maxAttempts := by
  cases trail with
  | nil => exact Nat.zero_le _
  | snoc trail asks answer =>
    rw [List.length_append]
    exact asks.length_lt

/-- Requests for a signing block as a run makes them, one after the other; the last one may have no
answer. -/
inductive Rounds (setting : Setting) : List (Unsigned × Option (Option BlockRequest)) → Prop
  | answered {inquiries : List Inquiry} (trail : setting.Trail inquiries) :
      Rounds setting (inquiries.map Inquiry.answered)
  | broken {inquiries : List Inquiry} {shown : Unsigned} (trail : setting.Trail inquiries)
      (asks : setting.Asks inquiries shown) :
      Rounds setting (inquiries.map Inquiry.answered ++ [(shown, none)])

theorem Rounds.length_le {rounds : List (Unsigned × Option (Option BlockRequest))}
    (h : setting.Rounds rounds) : rounds.length ≤ maxAttempts := by
  cases h with
  | answered trail =>
    rw [List.length_map]
    exact trail.length_le
  | broken trail asks =>
    rw [List.length_append, List.length_map]
    exact asks.length_lt

end Setting

/-! ### The whole run -/

section Run

variable {engine : Engine σ} {start : σ} {setting : Setting}

/-- The last call of a run comes when the output is complete. -/
theorem ensures_finished (summary : Summary) :
    Ensures
      (fun s => ∃ phase before last,
        (Stands engine start setting phase s ∧ s.output.position = Inquiry.total last) ∧
          Step setting phase (.finished, Inquiry.total last) (.done (before ++ [last])))
      (do
        ask engine.finished fun _ => .finished
        note (.finished summary)
        return summary)
      (fun _ s => ∃ before last, Stands engine start setting (.done (before ++ [last])) s ∧
        s.output.position = Inquiry.total last ∧
          s.calls.toList.getLast? = some (.finished, s.output.position))
      (Stops engine start setting) := by
  rintro s ⟨phase, before, last, stands, step⟩
  have told : Ensures
      (fun s => Stands engine start setting phase s ∧ s.output.position = last.total)
      (ask engine.finished fun _ => .finished)
      (fun _ s => Stands engine start setting (.done (before ++ [last])) s ∧
        s.output.position = last.total)
      (Stops engine start setting) :=
    ensures_ask (R := fun output => output.position = last.total) .finished
      (fun _ same _ => same ▸ step) fun _ _ _ => nofun
  refine ((told.also fun _ _ _ _ => getLast?_calls_of_ask).bind fun _ => ?_) stands
  rintro s ⟨⟨stands, position⟩, ends⟩
  exact ⟨before, last, ⟨stands.reaches, stands.replays⟩, position, ends⟩

end Run

section Whole

variable (engine : Engine σ) (config : Config) (input : View)
  (deflate : Bytes → Bytes) (start : σ)

/-- How a run ends that succeeds: the last call comes after the last byte. -/
inductive Finishes (s : Session σ) : Prop
  | intro {sections : Sections} {records : List DirectoryRecord} {entries : View}
      {before : List Inquiry} {last : Inquiry}
      (archive : input.IsArchive sections records entries)
      (stands : Stands engine start (.of config input deflate sections records entries)
        (.done (before ++ [last])) s)
      (complete : s.output.position = Inquiry.total last)
      (ends : s.calls.toList.getLast? = some (.finished, s.output.position))

/-- How a run ends that fails. -/
inductive Fails (sink : Sink) (error : Error) (s : Session σ) : Prop
  /-- It fails before the first call. -/
  | early (calls : s.calls = #[]) (output : s.output = sink) (same : s.engine = start)
      (other : error.isFromPadding = false)
  /-- The input was read, and the engine was called. -/
  | late {sections : Sections} {records : List DirectoryRecord} {entries : View}
      (archive : input.IsArchive sections records entries)
      (stops : Stops engine start (.of config input deflate sections records entries) error s)

end Whole

section Parts

variable {engine : Engine σ} {config : Config} {input : View} {deflate : Bytes → Bytes}
  {sink : Sink} {sections : Sections} {records : List DirectoryRecord} {entries : View}

/-- All entries are written, and the engine is to be asked for a signing block. -/
def Halfway (engine : Engine σ) (start : σ) (setting : Setting) (written : EntriesWritten)
    (s : Session σ) : Prop :=
  written.inputEnd = setting.endRecord ∧
    StandsAt engine start setting (.asking written.records [], written.offset) s ∧
      setting.complete s.output.contents written.records

/-- From the first call on a run follows the protocol of its archive. -/
theorem ensures_entries (start : σ) (archive : input.IsArchive sections records entries) :
    let setting := Setting.of config input deflate sections records entries
    Ensures (fun s => Stands engine start setting .opening s ∧ s.output.bytes = [])
      (do
        ask (engine.inputBlock setting.block) fun _ => .inputBlock setting.block
        let entries ← ofExcept (input.slice 0 sections.entriesSize)
        let sweep ← sweepEntries engine config entries records
        let (added, offset) ← addEntries engine deflate sweep.records sweep.offset
        return { inputEnd := sections.endRecord, sweep, added, offset : EntriesWritten })
      (Halfway engine start setting) (Stops engine start setting) := by
  intro setting
  have told : Ensures
      (fun s => Stands engine start setting .opening s ∧ s.output.bytes = [])
      (ask (engine.inputBlock setting.block) fun _ => .inputBlock setting.block)
      (fun _ s => Stands engine start setting (.deciding {} setting.order) s ∧ s.output.bytes = [])
      (Stops engine start setting) := by
    refine ensures_ask (R := fun output => output.bytes = []) (.inputBlock _) ?_ fun _ _ _ => nofun
    intro output empty _
    rw [Sink.position_eq, empty]
    exact .inputBlock
  have swept : Ensures
      (fun s => Stands engine start setting (.deciding {} setting.order) s ∧ s.output.bytes = [])
      (sweepEntries engine config entries records)
      (fun sweep s => (∃ last, sweep = { last with offset := last.offsetAfter entries } ∧
          StandsAt engine start setting (.deciding last [], sweep.offset) s) ∧
        ∃ before, before.output.bytes = [] ∧
          sweepEntries engine config entries records before = .ok sweep s)
      (Stops engine start setting) := by
    have sweeps : Ensures (StandsAt engine start setting (.deciding {} setting.order, 0))
        (sweepEntries engine config entries records) _ _ := ensures_sweepEntries rfl rfl rfl
    refine (sweeps.pre ?_).also fun s sweep s' pre run => ⟨s, pre.2, run⟩
    rintro s ⟨stands, empty⟩
    exact ⟨stands, by rw [Sink.position_eq, empty]; rfl⟩
  have added (sweep : Sweep) : Ensures
      (fun s => (∃ last, sweep = { last with offset := last.offsetAfter entries } ∧
          StandsAt engine start setting (.deciding last [], sweep.offset) s) ∧
        ∃ before, before.output.bytes = [] ∧
          sweepEntries engine config entries records before = .ok sweep s)
      (addEntries engine deflate sweep.records sweep.offset)
      (fun added s =>
        StandsAt engine start setting (.asking (sweep.records ++ added.1) [], added.2) s ∧
          setting.complete s.output.contents (sweep.records ++ added.1))
      (Stops engine start setting) := by
    refine Ensures.also ?_ ?_
    · rintro s ⟨⟨last, rfl, stands⟩, -⟩
      exact follows_addEntries rfl last stands
    rintro s ⟨added, offset⟩ s' ⟨-, before, empty, sweeps⟩ adds
    obtain ⟨draft, supplied, -, -, kept, new, -, -, -, -, -, wrote⟩ :=
      exists_draft archive sweeps adds
    refine ⟨draft, ?_, by rw [kept, new]; rfl⟩
    show s'.output.bytes = draft.body
    rw [wrote.output, empty, List.nil_append]
  refine told.bind fun _ =>
    .ofExcept_bind (fun _ _ failed => nomatch failed.symm.trans archive.sliced) fun part same => ?_
  cases same.symm.trans archive.sliced
  refine swept.bind fun sweep => (added sweep).bind fun ⟨new, offset⟩ => ?_
  refine (Ensures.pure _).post ?_
  rintro _ s ⟨rfl, stands, complete⟩
  exact ⟨rfl, stands, complete⟩

theorem ensures_conclude {start : σ} {setting : Setting} {written : EntriesWritten}
    (multiple : setting.multiple = max 1 (config.sizeMultiple.getD 1)) :
    Ensures (Halfway engine start setting written)
      (conclude engine config written.inputEnd written.sweep written.added written.offset)
      (fun _ s => ∃ before last, Stands engine start setting (.done (before ++ [last])) s ∧
        s.output.position = Inquiry.total last ∧
          s.calls.toList.getLast? = some (.finished, s.output.position))
      (Stops engine start setting) := by
  rintro s ⟨same, stands⟩
  have closed : Ensures
      (fun s => StandsAt engine start setting (.asking written.records [], written.offset) s ∧
        setting.complete s.output.contents written.records)
      (writeDirectory engine config written.inputEnd written.records written.offset) _ _ :=
    same ▸ ensures_writeDirectory multiple
  unfold conclude
  exact (closed.bind fun blockSize => ensures_position_bind fun size =>
    (ensures_finished _).pre fun s pre => pre.1) stands

/-- A run makes no call before the input was read as an archive. -/
theorem ensures_writeEntries {start : σ} :
    Ensures (fun s => s = { engine := start, output := sink })
      (writeEntries engine config input deflate)
      (fun written s => ∃ sections records entries, input.IsArchive sections records entries ∧
        Halfway engine start (.of config input deflate sections records entries) written s)
      (Fails engine config input deflate start sink) := by
  let fresh (engine : σ) (output : Sink) (calls : Array (Call × Nat)) : Prop :=
    calls = #[] ∧ output = sink ∧ engine = start
  have fails {error : Error} (other : error.isFromPadding = false) (s : Session σ)
      (same : fresh s.engine s.output s.calls) :
      Fails engine config input deflate start sink error s :=
    .early same.1 same.2.1 same.2.2 other
  unfold writeEntries
  refine .pre (P := fun s => fresh s.engine s.output s.calls) ?_
    fun s same => same ▸ ⟨rfl, rfl, rfl⟩
  refine ensures_position_bind fun offset =>
    .guard (fun _ _ pre => fails rfl _ pre.1) fun empty => ?_
  rintro s ⟨same, position⟩
  have empty : sink.bytes = [] := by
    rw [← same.2.1, ← List.length_eq_zero_iff, ← Sink.position_eq, position]
    exact Decidable.not_not.1 empty
  refine Ensures.ofExcept_bind (P := fun s => fresh s.engine s.output s.calls)
    (fun error s failed => fails (Sections.excludes_locate _ _ failed) s)
    (fun sections located => ?_) same
  refine (ensures_note? (R := fresh) _).bind fun _ => ?_
  refine .ofExcept_bind
    (fun error s failed => fails (Sections.excludes_readDirectory _ _ _ failed) s)
    fun directory read => ?_
  refine .ofExcept_bind
    (fun error s failed => fails (Directory.excludes_parse _ _ _ _ failed) s)
    fun records parsed => ?_
  obtain ⟨entries, archive⟩ := View.exists_isArchive_of_parsed located read parsed
  refine (ensures_note? (R := fresh) (some _)).bind fun _ => ?_
  refine (ensures_entries start archive).weaken ?_ ?_ ?_
  · rintro s ⟨calls, output, state⟩
    refine ⟨⟨?_, ?_⟩, output ▸ empty⟩
    · rw [calls]
      exact .start
    · rw [calls, state]
      exact .nil
  · exact fun written s halfway => ⟨sections, records, entries, archive, halfway⟩
  · exact fun error s stops => .late archive stops

end Parts

/-- A run follows the protocol of its archive until it is done or stops. -/
theorem ensures_sign (engine : Engine σ) (config : Config) (input : View)
    (deflate : Bytes → Bytes) (start : σ) (sink : Sink) :
    Ensures (fun s => s = { engine := start, output := sink })
      (sign engine config input deflate) (fun _ => Finishes engine config input deflate start)
      (Fails engine config input deflate start sink) := by
  rw [sign_eq]
  refine ensures_writeEntries.bind fun written => ?_
  rintro s ⟨sections, records, entries, archive, halfway⟩
  refine (ensures_conclude rfl).weaken (fun _ pre => pre) ?_ ?_ halfway
  · rintro _ s ⟨before, last, stands, complete, ends⟩
    exact .intro archive stands complete ends
  · exact fun error s stops => .late archive stops

/-! ### The protocol of a run -/

/-- A call without an answer is an inquiry exactly if the call is one. -/
theorem Call.round?_unanswered (call : Call) :
    call.unanswered.round? = call.round?.map fun round => (round.1, none) := by
  cases call <;> rfl

section Rounds

variable {engine : Engine σ} {start : σ} {setting : Setting} {final : Session σ}

theorem Stands.rounds_eq {phase : Phase} (stands : Stands engine start setting phase final) :
    final.rounds = phase.inquiries.map Inquiry.answered := stands.reaches.inquiries.2

theorem Stands.rounds {phase : Phase} (stands : Stands engine start setting phase final) :
    setting.Rounds final.rounds := by
  rw [stands.rounds_eq]
  exact .answered stands.reaches.inquiries.1

theorem BreaksOff.rounds (breaks : BreaksOff setting final.calls.toList) :
    setting.Rounds final.rounds := by
  obtain ⟨earlier, phase, call, written, next, reaches, step, same⟩ := breaks
  obtain ⟨trail, rounds⟩ := reaches.inquiries
  rw [Session.rounds, same, List.filterMap_append, rounds]
  rcases step.inquiries with ⟨none, -⟩ | ⟨shown, answer, asks, some, -⟩
  · simpa [Call.round?_unanswered, none] using .answered trail
  · simpa [Call.round?_unanswered, some] using .broken trail asks

theorem Stops.rounds {error : Error} (stops : Stops engine start setting error final) :
    setting.Rounds final.rounds := by
  cases stops with
  | stopped stands stuck other => exact stands.rounds
  | unpadded stands stuck misses untouched reason => exact stands.rounds
  | failed breaks fails same untouched => exact breaks.rounds

end Rounds

/-- The calls of a run follow the protocol from its first step, each one after all that must be
written before it; a successful run follows it to the end. After an error no call is made: a run
that fails has called nobody, or the last call is the one at which the engine failed, or the run
stands where something is wrong and no call can be made any more. -/
theorem calls_follow_protocol (engine : Engine σ) (config : Config) (input : View)
    (deflate : Bytes → Bytes) (start : σ) (sink : Sink) :
    (match (sign engine config input deflate).run { engine := start, output := sink } with
    | .ok _ final => ∃ setting inquiries, setting.Suits config input deflate ∧
        Stands engine start setting (.done inquiries) final ∧
        final.calls.toList.getLast? = some (.finished, final.output.position) ∧
        1 ≤ final.rounds.length ∧ final.rounds.length ≤ maxAttempts
    | .error error final =>
      (final.calls = #[] ∧ final.output = sink ∧ final.engine = start) ∨
      ∃ setting, setting.Suits config input deflate ∧ final.rounds.length ≤ maxAttempts ∧
        ((∃ phase, Stands engine start setting phase final ∧
            Stuck setting phase final.output.position) ∨
          ∃ failure, error = .engine failure ∧ BreaksOff setting final.calls.toList ∧
            engine.FailsAfter start (final.calls.toList.map (·.1)) failure final.engine)) ∧
    ((¬ ∃ sections directory records, Sections.locate input = .ok sections ∧
        sections.readDirectory input = .ok directory ∧
        Directory.parse sections.recordCount sections.directoryOffset directory = .ok records) →
      ∃ error final,
        (sign engine config input deflate).run { engine := start, output := sink } =
          .error error final ∧ final.calls = #[] ∧ final.output = sink) := by
  have ensures := ensures_sign engine config input deflate start sink
  have parsed {sections : Sections} {records : List DirectoryRecord} {entries : View}
      (archive : input.IsArchive sections records entries) :
      ∃ sections directory records, Sections.locate input = .ok sections ∧
        sections.readDirectory input = .ok directory ∧
        Directory.parse sections.recordCount sections.directoryOffset directory = .ok records := by
    obtain ⟨directory, read, parsed⟩ := archive.parsed
    exact ⟨_, directory, _, archive.located, read, parsed⟩
  cases run : (sign engine config input deflate).run { engine := start, output := sink } with
  | ok summary final =>
    obtain ⟨archive, stands, complete, ends⟩ := ensures.ok rfl run
    refine ⟨⟨_, _, Setting.suits_of config deflate archive, stands, ends, ?_,
      stands.rounds.length_le⟩, ?_⟩
    · rw [stands.rounds_eq]
      simp [Phase.inquiries]
    · exact fun refused => absurd (parsed archive) refused
  | error error final =>
    have fails := ensures.error rfl run
    cases fails with
    | early calls output same other =>
      exact ⟨.inl ⟨calls, output, same⟩, fun _ => ⟨_, _, rfl, calls, output⟩⟩
    | late archive stops =>
      refine ⟨.inr ⟨_, Setting.suits_of config deflate archive, stops.rounds.length_le, ?_⟩,
        fun refused => absurd (parsed archive) refused⟩
      cases stops with
      | stopped stands stuck other => exact .inl ⟨_, stands, stuck⟩
      | unpadded stands stuck misses untouched reason => exact .inl ⟨_, stands, stuck⟩
      | failed breaks fails same untouched => exact .inr ⟨_, same, breaks, fails⟩

end ApkArchive.Signing

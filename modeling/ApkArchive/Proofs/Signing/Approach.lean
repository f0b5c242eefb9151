import ApkArchive.Proofs.Signing.Lockstep

/-!
# Up to the first request for a signing block

Runs on two archives that differ in the order of their directories are in lockstep until the engine
is asked for a signing block. A function says what became of each record, the same one for both, so
what the runs have done to their entries is the same, and their own directories differ in the order
only. From there on the engine sees different bytes, and the runs may part.
-/

namespace ApkArchive.Signing

open Run

variable {earlier : Sink} {engine : Engine σ} {config : Config} {entries : View}
variable {records records' : List DirectoryRecord}

/-! ### The records that are kept -/

/-- The new record of the entry, if it was kept. -/
def Piece.record? (piece : Piece) : Option DirectoryRecord := piece.kept?.map (·.1)

theorem Piece.record?_fate (piece : Piece) : (piece.fate config).record? = piece.record? := by
  rw [Fate.record?, kept?_fate, record?]

theorem map_record?_fates (pieces : List Piece) :
    (pieces.map (Piece.fate config)).reverse.map Fate.record? =
      (pieces.map Piece.record?).reverse := by
  rw [List.map_reverse, List.map_map]
  exact congrArg (List.reverse <| pieces.map ·) (funext fun piece => piece.record?_fate)

theorem Piece.eq_of_record? {piece : Piece} {moved : DirectoryRecord}
    (kept : piece.record? = some moved) : moved = piece.moved := by
  rw [record?, kept?] at kept
  split at kept
  · exact (Option.some.inj kept).symm
  · cases kept

/-- What becomes of the records in a directory: a new record at another place, or none. -/
structure Sends (move : DirectoryRecord → Option DirectoryRecord) (pieces : List Piece) : Prop where
  place : ∀ record moved, move record = some moved → ∃ offset, moved = record.withLocalOffset offset
  eq : ∀ piece ∈ pieces, move piece.record = piece.record?

/-- The same is said of other pieces of the same records that became the same. -/
theorem Sends.of_map_eq {move : DirectoryRecord → Option DirectoryRecord}
    {pieces pieces' : List Piece} (sends : Sends move pieces)
    (same : pieces.map (fun piece => (piece.record, piece.record?)) =
      pieces'.map fun piece => (piece.record, piece.record?)) : Sends move pieces' := by
  refine ⟨sends.place, fun piece' mem' => ?_⟩
  have among : (piece'.record, piece'.record?) ∈
      pieces.map fun piece => (piece.record, piece.record?) := by
    rw [same]
    exact List.mem_map_of_mem mem'
  obtain ⟨piece, mem, pair⟩ := List.mem_map.1 among
  obtain ⟨record, moved⟩ := Prod.mk.inj pair
  rw [← record, ← moved]
  exact sends.eq piece mem

/-- What a sweep makes of a record depends on the record only, as there are no two of a kind. -/
theorem exists_sends {records : List DirectoryRecord} {pieces : List Piece}
    (order : pieces.map (fun piece => (piece.record, piece.number)) =
      Directory.inFileOrder records) (distinct : records.Nodup) : ∃ move, Sends move pieces := by
  refine ⟨fun record => (pieces.find? fun piece => piece.record = record).bind Piece.record?,
    ?_, ?_⟩
  · intro record moved kept
    obtain ⟨piece, found, kept⟩ := Option.bind_eq_some_iff.1 kept
    have same : piece.record = record := by simpa using List.find?_some found
    rw [Piece.eq_of_record? kept, ← same]
    exact ⟨_, rfl⟩
  intro piece mem
  have listed : pieces.map Piece.record = (Directory.inFileOrder records).map (·.1) := by
    rw [← order, List.map_map]
    rfl
  have alone : (pieces.map Piece.record).Nodup := by
    rw [listed]
    exact (Directory.map_fst_inFileOrder_perm records).nodup_iff.2 distinct
  cases found : pieces.find? fun other => other.record = piece.record with
  | none =>
    have absent := List.find?_eq_none.1 found piece mem
    simp at absent
  | some other =>
    have same : other.record = piece.record := by simpa using List.find?_some found
    have mem' := List.mem_of_find?_eq_some found
    obtain rfl := List.inj_on_of_nodup_map alone mem' mem same
    simp

/-- The directory of the output, as far as it comes from the input. -/
theorem Sweep.records_eq_filterMap {records : List DirectoryRecord} {pieces : List Piece}
    {sweep : Sweep} {move : DirectoryRecord → Option DirectoryRecord}
    (order : pieces.map (fun piece => (piece.record, piece.number)) =
      Directory.inFileOrder records)
    (fates : sweep.fates = (pieces.map (Piece.fate config)).reverse)
    (sends : Sends move pieces) : sweep.records = records.filterMap move := by
  obtain ⟨listed, perm, rfl, kept⟩ := exists_directory_order order
  rw [kept sweep (Sweep.keptSoFar_of_fates fates), ← map_filterMap_kept?, List.map_filterMap,
    List.filterMap_map]
  refine List.filterMap_congr fun piece mem => ?_
  exact (sends.eq piece (perm.mem_iff.1 mem)).symm

/-- Two sweeps that have made the same of each record, and their directories are in the order of
their records. -/
def SameMoves (records records' : List DirectoryRecord) (sweep sweep' : Sweep) : Prop :=
  ∃ move : DirectoryRecord → Option DirectoryRecord,
    (∀ record moved, move record = some moved → ∃ offset, moved = record.withLocalOffset offset) ∧
    sweep.records = records.filterMap move ∧ sweep'.records = records'.filterMap move

theorem SameMoves.perm {records records' : List DirectoryRecord} {sweep sweep' : Sweep}
    (same : SameMoves records records' sweep sweep') (perm : records.Perm records') :
    sweep.records.Perm sweep'.records := by
  obtain ⟨move, -, left, right⟩ := same
  rw [left, right]
  exact perm.filterMap move

/-- The sweeps of two runs in lockstep count the same. Their pieces have the same records in the
same order, so a function that says what became of those of the first run says it of the second. -/
theorem lockstep_sweepEntries_moves {entries' : View} {records records' : List DirectoryRecord}
    (alike : entries.Alike entries') (perm : records.Perm records')
    (distinct : (Directory.names records).Nodup) :
    Lockstep earlier (sweepEntries engine config entries records)
      (sweepEntries engine config entries' records') fun sweep sweep' =>
        sweep.offset = sweep'.offset ∧ SameMoves records records' sweep sweep' := by
  have swept : Lockstep earlier (sweepEntries engine config entries records)
      (sweepEntries engine config entries' records') Sweep.Alike :=
    lockstep_sweepEntries alike perm distinct
  refine Pairs.of_runs (fun s t sweep s' abreast run => ?_) fun s t error s' abreast run => ?_
  · obtain ⟨sweep', t', run', same, stay⟩ := swept.ok abreast run
    refine ⟨sweep', t', run', ⟨same.offset, ?_⟩, stay⟩
    obtain ⟨pieces, _, order, -, -, -, -, fates⟩ := sweepEntries_eq_ok run
    obtain ⟨pieces', _, order', -, -, -, -, fates'⟩ := sweepEntries_eq_ok run'
    obtain ⟨move, sends⟩ := exists_sends order distinct.of_map
    have kept := same.records
    rw [fates, fates', map_record?_fates, map_record?_fates, List.reverse_inj] at kept
    have listed := Directory.map_fst_inFileOrder_of_perm perm (apart_of_sweepEntries distinct run)
    rw [← order, ← order', List.map_map, List.map_map] at listed
    have both : pieces.map (fun piece => (piece.record, piece.record?)) =
        pieces'.map fun piece => (piece.record, piece.record?) := by
      rw [← List.zip_map', ← List.zip_map', kept]
      exact congrArg (List.zip · _) listed
    exact ⟨move, sends.place, Sweep.records_eq_filterMap order fates sends,
      Sweep.records_eq_filterMap order' fates' (sends.of_map_eq both)⟩
  · exact swept.error abreast run

/-! ### The end of a run -/

/-- Agrees with the engine on a signing block and writes all that comes after the entries. -/
def closeOutput (engine : Engine σ) (multiple : Nat) (entries : ByteArray) (offset : Nat)
    (directory : Bytes) (size : Nat) (endRecord : EndRecord) : Run σ Nat := do
  let agreed ← negotiate engine multiple entries offset directory maxAttempts endRecord
  completeOutput engine offset directory size agreed.1 agreed.2

/-- The directory of an output is as large in any order, so the end record for it is the same. The
runs write it where they have counted to, which is where their outputs end. -/
theorem pairs_writeDirectory {inputEnd : EndRecord} {offset : Nat} (perm : records.Perm records')
    {O : EStateM.Result Error (Session σ) Nat → EStateM.Result Error (Session σ) Nat → Prop}
    (excuses : Excuses Unasked O)
    (rest : ∀ (entries : ByteArray) (endRecord : EndRecord), entries.size < UInt32.size →
      Directory.size records ≤ View.maxBufferSize →
      endRecord = inputEnd.withDirectory (UInt16.ofNat records.length)
        (UInt32.ofNat (Directory.size records)) (UInt32.ofNat entries.size) →
      Pairs (fun s t => Abreast earlier s t ∧ s.output.contents = entries)
        (closeOutput engine (max 1 (config.sizeMultiple.getD 1)) entries entries.size
          (Directory.encode records) (Directory.size records) endRecord)
        (closeOutput engine (max 1 (config.sizeMultiple.getD 1)) entries entries.size
          (Directory.encode records') (Directory.size records) endRecord) O) :
    Pairs (fun s t => Abreast earlier s t ∧ offset = s.output.position)
      (writeDirectory engine config inputEnd records offset)
      (writeDirectory engine config inputEnd records' offset) O := by
  have sizes := Directory.size_of_perm perm
  have fails (s t : Session σ) (here : Abreast earlier s t ∧ offset = s.output.position) :
      Unasked s := here.1.unasked
  unfold writeDirectory
  dsimp only
  rw [← sizes, ← perm.length_eq]
  refine Pairs.guard excuses fails id fun fits => ?_
  refine Pairs.guard excuses fails id fun _ => ?_
  refine Pairs.ofExcept_bind excuses fails fun word field => ⟨word, field, ?_⟩
  obtain ⟨small, rfl⟩ := fieldOffset_eq_ok_iff.1 field
  refine Pairs.get_bind fun s t here => ?_
  obtain ⟨abreast, counts⟩ := here
  have size : offset = s.output.contents.size := counts
  rw [← abreast.output, size]
  have closes := rest s.output.contents _ (size ▸ small) (Nat.le_of_not_lt fits) rfl
  rintro _ _ ⟨rfl, rfl⟩
  -- The two programs match on what was agreed at once, and not in each of the steps after it.
  refine (congrArg₂ O ?_ ?_).mpr (closes ⟨abreast, rfl⟩)
  all_goals
    refine congrFun (bind_congr ?_) _
    rintro ⟨endRecord, request⟩
    cases request <;> rfl

/-! ### The whole run -/

/-- The engine reads the signing block of the input, and does not look where it is stored. -/
def Engine.ReadsBytes (engine : Engine σ) : Prop :=
  ∀ ⦃view view' : View⦄, view.Alike view' →
    engine.inputBlock (some view) = engine.inputBlock (some view')

variable {input input' : View} {sections : Sections} {deflate : Bytes → Bytes}

theorem signingBlock?_of_alike {before before' : SigningBlock.Search} (alike : before.Alike before')
    {sections : Sections} (same : sections.beforeDirectory = before) :
    (sections.signingBlock? = none ∧
        Sections.signingBlock? { sections with beforeDirectory := before' } = none) ∨
      ∃ block block', sections.signingBlock? = some block ∧
        Sections.signingBlock? { sections with beforeDirectory := before' } = some block' ∧
        block.contents.Alike block'.contents := by
  unfold Sections.signingBlock?
  rw [same]
  cases alike with
  | absent => exact .inl ⟨rfl, rfl⟩
  | ignored flaw => exact .inl ⟨rfl, rfl⟩
  | found offset alike => exact .inr ⟨_, _, rfl, rfl, alike⟩

/-- The call with which a run begins is the same, too: the signing block was only moved. -/
theorem lockstep_inputBlock (reads : engine.ReadsBytes) {block block' : Option View}
    (alike : (block = none ∧ block' = none) ∨
      ∃ view view', block = some view ∧ block' = some view' ∧ view.Alike view') :
    Lockstep earlier (ask (engine.inputBlock block) fun _ => .inputBlock block)
      (ask (engine.inputBlock block') fun _ => .inputBlock block') Eq := by
  rcases alike with ⟨rfl, rfl⟩ | ⟨view, view', rfl, rfl, alike⟩
  · exact .ask rfl (fun _ => rfl) fun _ => rfl
  · refine .ask (reads alike) (fun _ => ?_) fun _ => rfl
    exact congrArg (fun bytes => Call.inputBlock (some (.ofBytes bytes))) alike.bytes_eq

/-- Runs on archives in different orders stay in lockstep up to the directory of the output. -/
theorem pairs_sign (reads : engine.ReadsBytes)
    (reorders : input.Reorders input' sections records records')
    {O : EStateM.Result Error (Session σ) Summary → EStateM.Result Error (Session σ) Summary → Prop}
    (excuses : Excuses Unasked O)
    (rest : ∀ sweep sweep' added offset, SameMoves records records' sweep sweep' →
      (∃ s s', addEntries engine deflate sweep.records sweep.offset s = .ok (added, offset) s') →
      Pairs (fun s t => Abreast earlier s t ∧ offset = s.output.position)
        (conclude engine config sections.endRecord sweep added offset)
        (conclude engine config sections.endRecord sweep' added offset) O) :
    Pairs (Abreast earlier) (sign engine config input deflate)
      (sign engine config input' deflate) O := by
  let atStart (s t : Session σ) : Prop := Abreast earlier s t ∧ s.output.position = 0
  have fails (s t : Session σ) (here : atStart s t) : Unasked s := here.1.unasked
  have silent {α : Type} {x : Run σ α} {a : α → List Call}
      (reaches : ∀ {s s'} b, x s = .ok b s' → Extends s s' [] (a b)) (s : Session σ) (b : α)
      (s' : Session σ) (empty : s.output.position = 0) (run : x s = .ok b s') :
      s'.output.position = 0 :=
    (reaches b run).position_eq.trans empty
  obtain ⟨before, located, search⟩ := reorders.exists_located
  unfold sign
  refine pairs_position_bind fun position => ?_
  refine Pairs.guard excuses (fun _ _ related => related.1.unasked) id fun empty => ?_
  obtain rfl : position = 0 := Decidable.not_not.1 empty
  refine Pairs.ofExcept_bind excuses fails fun found located' => ⟨_, located, ?_⟩
  cases located'.symm.trans reorders.located
  refine (Lockstep.note? _ _).andThen_of_runs excuses (silent fun _ => note?_extends)
    fun _ _ _ => ?_
  refine Pairs.ofExcept_bind excuses fails fun directory read => ?_
  obtain ⟨rfl, read'⟩ := reorders.readDirectory read
  refine ⟨_, read', Pairs.ofExcept_bind excuses fails fun listed parsed => ?_⟩
  obtain ⟨rfl, distinct, parsed'⟩ := reorders.parse parsed
  refine ⟨_, parsed', ?_⟩
  refine (Lockstep.note _ _).andThen_of_runs excuses (silent fun _ => note_extends) fun _ _ _ => ?_
  have told : Lockstep earlier
      (ask (engine.inputBlock (sections.signingBlock?.map (·.contents))) fun _ =>
        .inputBlock (sections.signingBlock?.map (·.contents)))
      (ask (engine.inputBlock ((Sections.signingBlock?
          { sections with beforeDirectory := before }).map (·.contents))) fun _ =>
        .inputBlock ((Sections.signingBlock?
          { sections with beforeDirectory := before }).map (·.contents))) Eq := by
    refine lockstep_inputBlock reads ?_
    rcases signingBlock?_of_alike search rfl with
      ⟨none, none'⟩ | ⟨block, block', found, found', alike⟩
    · rw [none, none']
      exact .inl ⟨rfl, rfl⟩
    · rw [found, found']
      exact .inr ⟨_, _, rfl, rfl, alike⟩
  refine told.andThen_of_runs excuses (silent fun _ => ask_extends) fun _ _ _ => ?_
  refine Pairs.ofExcept_bind excuses fails fun entries sliced => ?_
  obtain ⟨entries', sliced', alike⟩ := reorders.slice search sliced
  refine ⟨entries', sliced', ?_⟩
  -- Nothing has been written yet, so the sweep counts the output from its beginning.
  refine (lockstep_sweepEntries_moves alike reorders.perm distinct).andThen_of_runs excuses
    (fun _ _ _ => sweepEntries_counts) fun sweep sweep' same => ?_
  obtain ⟨counts, moves⟩ := same
  rw [← counts]
  refine (lockstep_addEntries (moves.perm reorders.perm) sweep.offset).andThen_of_runs excuses
    (S := fun result s' => result.2 = s'.output.position ∧
      ∃ s s', addEntries engine deflate sweep.records sweep.offset s = .ok result s') ?_ ?_
  · exact fun s result s' counts run => ⟨addEntries_counts counts run, s, s', run⟩
  · rintro ⟨added, offset⟩ _ rfl s t ⟨abreast, counts, ran⟩
    exact rest sweep sweep' added offset moves ran ⟨abreast, counts⟩

/-- However a part of a run ends, all that follows it is one step. -/
theorem step_ending_bind {step : Session σ → Session σ → Prop} [IsFrame step] {x : Run σ α}
    {f : α → Run σ β} (moves : ∀ a, Moves step (f a)) (s : Session σ) :
    step (ending (x s)) (ending ((x >>= f) s)) := by
  show step _ (ending (EStateM.bind x f s))
  unfold EStateM.bind
  cases x s with
  | ok a mid => exact moves a mid
  | error error mid => exact Moves.refl mid

/-! ### Up to the first request for a signing block -/

/-- A session that asked for a signing block after the calls `before`, and not among them. It showed
what it had written until then, and all of that is still there. -/
structure Session.FirstAsked (final : Session σ) (before : List (Call × Nat)) (shown : Unsigned) :
    Prop where
  unasked : before.filterMap (fun call => call.1.round?) = []
  calls : ∃ answer after, final.calls.toList =
    before ++ (.signingBlock shown answer, shown.entries.size) :: after
  written : shown.entries.data.toList <+: final.output.bytes

theorem Session.FirstAsked.onward {s t : Session σ} {before : List (Call × Nat)} {shown : Unsigned}
    (asked : s.FirstAsked before shown) (onward : Onward s t) : t.FirstAsked before shown := by
  obtain ⟨answer, after, calls⟩ := asked.calls
  obtain ⟨more, added⟩ := onward.calls
  refine ⟨asked.unasked, ⟨answer, after ++ more, ?_⟩, asked.written.trans onward.output.bytes⟩
  rw [← added, calls, List.append_assoc, List.cons_append]

theorem Session.FirstAsked.rounds_ne_nil {s : Session σ} {before : List (Call × Nat)}
    {shown : Unsigned} (asked : s.FirstAsked before shown) : s.rounds ≠ [] := by
  obtain ⟨answer, after, calls⟩ := asked.calls
  unfold Session.rounds
  rw [calls, List.filterMap_append]
  simp [Call.round?]

/-- The end of a run begins with a request for a signing block. -/
theorem firstAsked_closeOutput {multiple offset size : Nat} {directory : Bytes}
    {endRecord : EndRecord} {s : Session σ} (unasked : Unasked s) :
    (ending <| closeOutput engine multiple s.output.contents offset directory size endRecord
      s).FirstAsked s.calls.toList ⟨s.output.contents, directory, endRecord⟩ := by
  let asked (t : Session σ) : Prop :=
    t.FirstAsked s.calls.toList ⟨s.output.contents, directory, endRecord⟩
  have onward {α : Type} {x : Run σ α} (moves : Moves Onward x) :
      Ensures asked x (fun _ => asked) fun _ => asked :=
    moves.ensures fun step asked => asked.onward step
  have asks (shown : Unsigned) (same : shown = ⟨s.output.contents, directory, endRecord⟩) :
      Ensures (fun s' => s' = s) (ask (engine.signingBlock shown) (.signingBlock shown))
        (fun _ => asked) fun _ => asked := by
    subst same
    obtain ⟨state, output, calls, notices⟩ := s
    have here (answer : Option (Option BlockRequest)) (after : σ) : asked ⟨after, output,
        calls.push (.signingBlock ⟨output.contents, directory, endRecord⟩ answer, output.position),
        notices⟩ := by
      refine ⟨unasked, ⟨answer, [], ?_⟩, List.prefix_refl _⟩
      rw [Array.toList_push]
      rfl
    rintro _ rfl
    unfold ask
    dsimp only
    cases (engine.signingBlock _).run state with
    | ok answer after => exact here (some answer) after
    | error failure after => exact here none after
  have negotiates : Ensures (fun s' => s' = s)
      (negotiate engine multiple s.output.contents offset directory maxAttempts endRecord)
      (fun _ => asked) fun _ => asked := by
    unfold maxAttempts negotiate
    refine (asks _ rfl).bind fun request => onward ?_
    refine .ite (.pure _) (.guard ((Moves.note _).bind fun _ => .ofExcept_bind fun endRecord => ?_))
    exact moves_negotiate (fun _ _ => allows_onward _) _ _ _ _ _ _
  have closes : Ensures (fun s' => s' = s)
      (closeOutput engine multiple s.output.contents offset directory size endRecord)
      (fun _ => asked) fun _ => asked :=
    negotiates.bind fun agreed => onward <|
      moves_completeOutput engine (allows_onward _) allowsWrites_onward _ _ _ _ _
  cases run : closeOutput engine multiple s.output.contents offset directory size endRecord s with
  | ok _ t => exact closes.ok rfl run
  | error _ t => exact closes.error rfl run

/-- Two runs have asked for a signing block after the same calls and with the same bytes written;
what they showed differs in the order of the directory. -/
def SameApproach (s t : Session σ) : Prop :=
  ∃ (before before' : List (Call × Nat)) (shown : Unsigned) (kept kept' : List DirectoryRecord),
    s.FirstAsked before { shown with directory := Directory.encode kept } ∧
    t.FirstAsked before' { shown with directory := Directory.encode kept' } ∧
    seenCalls before = seenCalls before' ∧ kept.Perm kept'

theorem SameApproach.onward {s s' t t' : Session σ} (same : SameApproach s t) (left : Onward s s')
    (right : Onward t t') : SameApproach s' t' := by
  obtain ⟨before, before', shown, kept, kept', asked, asked', calls, perm⟩ := same
  exact ⟨before, before', shown, kept, kept', asked.onward left, asked'.onward right, calls, perm⟩

/-- The run goes on, and does not ask for a signing block. -/
structure Concludes (s t : Session σ) : Prop where
  onward : Onward s t
  rounds : t.rounds = s.rounds

instance : IsFrame (Concludes : Session σ → Session σ → Prop) where
  trans first second :=
    ⟨IsFrame.trans first.onward second.onward, second.rounds.trans first.rounds⟩
  notices _ _ := ⟨IsFrame.notices _ _, rfl⟩

theorem allows_concludes {call : Call} (other : call.round? = none) :
    Allows (Concludes : Session σ → Session σ → Prop) call := by
  intro engine engine' output calls notices
  refine ⟨allows_onward call engine engine' output calls notices, ?_⟩
  simp [Session.rounds, other]

/-- If one run asks for a signing block, so does the other one, and they have come there alike. -/
theorem sameApproach_of_reorders (reads : engine.ReadsBytes)
    (reorders : input.Reorders input' sections records records') (config : Config)
    (deflate : Bytes → Bytes) (start : σ) (sink : Sink) :
    let final := ending ((sign engine config input deflate).run { engine := start, output := sink })
    let final' := ending ((sign engine config input' deflate).run
      { engine := start, output := sink })
    final.rounds ≠ [] → SameApproach final final' := by
  intro final final'
  have excuses {α : Type} : Excuses Unasked fun r r' : EStateM.Result Error (Session σ) α =>
      (ending r).rounds ≠ [] → SameApproach (ending r) (ending r') :=
    fun _ _ _ unasked asked => absurd unasked asked
  have closes {inputEnd : EndRecord} {offset : Nat} {kept kept' : List DirectoryRecord}
      (perm : kept.Perm kept') :
      Pairs (fun s t => Abreast sink s t ∧ offset = s.output.position)
        (writeDirectory engine config inputEnd kept offset)
        (writeDirectory engine config inputEnd kept' offset) fun r r' =>
          (ending r).rounds ≠ [] → SameApproach (ending r) (ending r') := by
    refine pairs_writeDirectory perm excuses ?_
    rintro entries endRecord - - - s t ⟨abreast, rfl⟩ -
    have right := abreast.unasked_right
    refine ⟨s.calls.toList, t.calls.toList, ⟨s.output.contents, [], endRecord⟩, kept, kept',
      firstAsked_closeOutput abreast.unasked, ?_, abreast.calls, perm⟩
    rw [abreast.output]
    exact firstAsked_closeOutput right
  have concludes {inputEnd : EndRecord} {sweep sweep' : Sweep} (added : List DirectoryRecord)
      (offset : Nat) (perm : sweep.records.Perm sweep'.records) :
      Pairs (fun s t => Abreast sink s t ∧ offset = s.output.position)
        (conclude engine config inputEnd sweep added offset)
        (conclude engine config inputEnd sweep' added offset) fun r r' =>
          (ending r).rounds ≠ [] → SameApproach (ending r) (ending r') := by
    have ends (summary : Nat → Summary) : Moves Concludes (do
        let size ← position
        ask engine.finished fun _ => .finished
        note (.finished (summary size))
        return summary size : Run σ Summary) :=
      .position_bind fun _ => (Moves.ask fun _ => allows_concludes rfl).bind fun _ =>
        (Moves.note _).bind fun _ => .pure _
    -- No block is requested after the directory, so the runs are as they were at its end.
    intro s t here asked
    have left : Concludes
        (ending (writeDirectory engine config inputEnd (sweep.records ++ added) offset s))
        (ending (conclude engine config inputEnd sweep added offset s)) :=
      step_ending_bind (fun _ => ends _) s
    have right : Concludes
        (ending (writeDirectory engine config inputEnd (sweep'.records ++ added) offset t))
        (ending (conclude engine config inputEnd sweep' added offset t)) :=
      step_ending_bind (fun _ => ends _) t
    rw [left.rounds] at asked
    exact (closes (perm.append_right added) here asked).onward left.onward right.onward
  refine pairs_sign reads reorders excuses ?_ ⟨rfl, rfl, rfl, .refl _, rfl⟩
  intro sweep sweep' added offset moves _
  exact concludes added offset (moves.perm reorders.perm)

end ApkArchive.Signing

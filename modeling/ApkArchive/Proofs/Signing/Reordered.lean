import ApkArchive.Proofs.Signing.Approach
import ApkArchive.Proofs.Signing.Idempotent
import ApkArchive.Proofs.Storage.Level

/-!
# The order of a directory makes no difference

Two archives that differ in the order of the records in their directories are signed alike. The runs
stay in lockstep until the engine is asked for a signing block; what it is shown there differs in
the directory only. A run that signs nothing writes the same bytes before its directory and after
it, and its directory has the same records, in the order in which they were.
-/

namespace ApkArchive.Signing

open Run

variable {config : Config} {records records' : List DirectoryRecord}

/-! ### Nothing is signed -/

/-- Writers that go equally far are parts of runs that go equally far. -/
theorem pairs_emit {action : Emit α} {action' : Emit β} {R : Sink → Sink → Prop}
    {Q : α → β → Sink → Sink → Prop} (h : Pairs R action action' (Tandem Q fun _ => True)) :
    Pairs (fun s t : Session σ => R s.output t.output) (emit action) (emit action')
      (Tandem (fun a b s t => Q a b s.output t.output) fun _ => True) := by
  rintro ⟨state, output, calls, notices⟩ ⟨state', output', calls', notices'⟩ related
  unfold emit EStateM.run
  dsimp only
  cases run : action output with
  | ok a after =>
    obtain ⟨b, after', run', post⟩ := h.ok related run
    rw [run']
    exact .ok post
  | error error after => exact .error _ trivial

namespace PassThrough

variable {strip : Bool} {front front' directory directory' : Bytes} {first : EndRecord}

/-- The engine never asks for a block, so the sizes decide how often it is asked. -/
theorem pairs_negotiate (multiple : Nat) (entries : ByteArray) (offset : Nat)
    (length : directory.length = directory'.length) (attempts : Nat) {endRecord : EndRecord}
    (padded : first.PaddedTo endRecord) :
    Pairs (fun s t : Session Bool => Sink.Level front front' s.output t.output)
      (negotiate (engine strip) multiple entries offset directory attempts endRecord)
      (negotiate (engine strip) multiple entries offset directory' attempts endRecord)
      (Tandem (fun agreed agreed' s t => (agreed = agreed' ∧ agreed.2 = none ∧
        first.PaddedTo agreed.1) ∧ Sink.Level front front' s.output t.output) fun _ => True) := by
  induction attempts generalizing endRecord with
  | zero => exact Pairs.throw Tandem.excuses fun _ _ _ => trivial
  | succ attempts ih =>
    have asks (shown shown' : Unsigned) :
        Pairs (fun s t : Session Bool => Sink.Level front front' s.output t.output)
          (ask ((engine strip).signingBlock shown) (.signingBlock shown))
          (ask ((engine strip).signingBlock shown') (.signingBlock shown'))
          (Tandem (fun request request' s t => (request = none ∧ request' = none) ∧
            Sink.Level front front' s.output t.output) fun _ => True) :=
      fun _ _ level => .ok ⟨⟨rfl, rfl⟩, level⟩
    unfold negotiate
    refine Pairs.bind Tandem.excuses (asks _ _) ?_
    rintro request request' s t ⟨⟨rfl, rfl⟩, level⟩
    dsimp only
    rw [length]
    refine Pairs.ite (R := fun s t : Session Bool => Sink.Level front front' s.output t.output)
      (fun _ => ?_) (fun _ => ?_) level
    · exact Pairs.pure fun _ _ level => ⟨⟨rfl, rfl, padded⟩, level⟩
    · refine Pairs.guard Tandem.excuses (fun _ _ _ => trivial) id fun _ => ?_
      refine Pairs.bind Tandem.excuses
        (Q := fun _ _ s t => Sink.Level front front' s.output t.output)
        (fun _ _ level => .ok level) fun _ _ => ?_
      refine Pairs.ofExcept_bind Tandem.excuses (fun _ _ _ => trivial) fun next mapped => ?_
      have step := EndRecord.paddedTo_of_padComment (mapError_eq_ok_iff.1 mapped)
      exact ⟨next, mapped, ih (padded.trans step)⟩

/-- Without a block the directory stands where the entries end. -/
theorem pairs_completeOutput (offset : Nat) (length : directory.length = directory'.length)
    (endRecord : EndRecord) :
    Pairs (fun s t : Session Bool => Sink.Level front front' s.output t.output)
      (completeOutput (engine strip) offset directory directory.length endRecord none)
      (completeOutput (engine strip) offset directory' directory.length endRecord none)
      (Tandem (fun _ _ s t => Sink.Level (front ++ (directory ++ endRecord.encode))
        (front' ++ (directory' ++ endRecord.encode)) s.output t.output) fun _ => True) := by
  -- A directory is in memory, so it is streamed as it is.
  have streams (directory : Bytes) :
      (View.ofBytes directory).feed 0 directory.length = Sink.stream directory := by
    have shows := View.shows_ofBytes directory
    have whole := shows.contents
    have held := shows.holds
    rw [shows.size] at whole held
    rw [View.feed_of_holds (Nat.le_of_eq (by rw [shows.size, Nat.zero_add])) held, whole]
  have feeds : Pairs (fun s t : Session Bool => Sink.Level front front' s.output t.output)
      (emit (Sink.stream directory)) (emit (Sink.stream directory')) _ :=
    pairs_emit (Sink.pairs_stream length)
  have ends : Pairs (fun s t : Session Bool =>
        Sink.Level (front ++ directory) (front' ++ directory') s.output t.output)
      (emit (Sink.write endRecord.encode)) (emit (Sink.write endRecord.encode)) _ :=
    pairs_emit (Sink.pairs_write rfl)
  simp only [List.append_assoc] at ends
  have streams' := streams directory'
  rw [← length] at streams'
  have unblocked (directory : Bytes) (size : Nat) :
      completeOutput (engine strip) offset directory size endRecord none = (do
        emit ((View.ofBytes directory).feed 0 size)
        emit (Sink.write endRecord.encode)
        return 0) := rfl
  rw [unblocked, unblocked, streams, streams']
  refine Pairs.bind Tandem.excuses feeds fun _ _ => ?_
  exact Pairs.bind Tandem.excuses ends fun _ _ => Pairs.pure fun _ _ level => level

theorem pairs_closeOutput (multiple : Nat) (entries : ByteArray) (offset : Nat)
    (length : directory.length = directory'.length) (first : EndRecord) :
    Pairs (fun s t : Session Bool => Sink.Level front front' s.output t.output)
      (closeOutput (engine strip) multiple entries offset directory directory.length first)
      (closeOutput (engine strip) multiple entries offset directory' directory.length first)
      (Tandem (fun _ _ s t => ∃ last : EndRecord, first.PaddedTo last ∧
        Sink.Level (front ++ (directory ++ last.encode)) (front' ++ (directory' ++ last.encode))
          s.output t.output) fun _ => True) := by
  refine Pairs.bind Tandem.excuses (pairs_negotiate _ _ _ length _ (.refl first)) ?_
  rintro ⟨last, _⟩ _ s t ⟨⟨rfl, rfl, padded⟩, level⟩
  refine Pairs.weaken (pairs_completeOutput offset length last) ?_ (fun _ failed => failed) level
  exact fun _ _ s t level => ⟨last, padded, level⟩

/-- Two outputs that differ in the order of their directories. Each record of the input has the same
record in both, or in neither, and both keep the order of the directory that was read. -/
def SameOutput (records records' : List DirectoryRecord) (written written' : Bytes) : Prop :=
  ∃ (base : Bytes) (endRecord : EndRecord) (move : DirectoryRecord → Option DirectoryRecord),
    (∀ record moved, move record = some moved → ∃ offset, moved = record.withLocalOffset offset) ∧
    endRecord.directoryOffset.toNat = base.length ∧
    endRecord.directorySize.toNat = (Directory.encode (records.filterMap move)).length ∧
    written = base ++ (Directory.encode (records.filterMap move) ++ endRecord.encode) ∧
    written' = base ++ (Directory.encode (records'.filterMap move) ++ endRecord.encode)

theorem pairs_writeDirectory_of_moves {sink : Sink} (blind : sink.Blind) (inputEnd : EndRecord)
    {sweep sweep' : Sweep} (offset : Nat) (perm : records.Perm records')
    (moves : SameMoves records records' sweep sweep') :
    Pairs (fun s t => Abreast sink s t ∧ offset = s.output.position)
      (writeDirectory (engine strip) config inputEnd sweep.records offset)
      (writeDirectory (engine strip) config inputEnd sweep'.records offset)
      (Tandem (fun _ _ s t => SameOutput records records' s.output.bytes t.output.bytes)
        fun _ => True) := by
  have kept := moves.perm perm
  obtain ⟨move, place, left, right⟩ := moves
  refine pairs_writeDirectory kept (fun _ _ _ _ => .error _ trivial) ?_
  rintro entries first small fits same s t ⟨abreast, rfl⟩
  have level : Sink.Level s.output.bytes s.output.bytes s.output t.output := by
    rw [← abreast.output]
    refine ⟨rfl, rfl, rfl, rfl, rfl, ?_⟩
    unfold Sink.Blind
    rw [abreast.later.refusal]
    exact blind
  have length := Directory.length_encode_of_perm kept
  rw [Directory.size_eq]
  refine Pairs.weaken (pairs_closeOutput _ _ _ length first) ?_ (fun _ failed => failed) level
  rintro _ _ s' t' ⟨last, ⟨padding, -, padded⟩, written⟩
  refine ⟨s.output.bytes, last, move, place, ?_, ?_, ?_, ?_⟩
  · rw [padded, same, ← Sink.position_eq]
    exact UInt32.toNat_ofNat_of_lt' small
  · rw [padded, same, ← left, ← Directory.size_eq]
    exact UInt32.toNat_ofNat_of_lt' (Nat.lt_of_le_of_lt fits (by decide))
  · rw [← left]
    exact written.left
  · rw [← right]
    exact written.right

/-- If one run succeeds, so does the other one, and the outputs are the same but for the order. -/
theorem sameOutput_of_reorders {input input' : View} {sections : Sections} {sink : Sink}
    (reorders : input.Reorders input' sections records records') (config : Config)
    (deflate : Bytes → Bytes) (strip start : Bool) (blind : sink.Blind) {summary : Summary}
    {final : Session Bool}
    (run : (sign (engine strip) config input deflate).run { engine := start, output := sink } =
      .ok summary final) :
    ∃ summary' final', (sign (engine strip) config input' deflate).run
        { engine := start, output := sink } = .ok summary' final' ∧
      SameOutput records records' final.output.bytes final'.output.bytes := by
  have reads : (engine strip).ReadsBytes := fun _ _ _ => rfl
  have signs : Pairs (Abreast sink) (sign (engine strip) config input deflate)
      (sign (engine strip) config input' deflate)
      (Tandem (fun _ _ s t => SameOutput records records' s.output.bytes t.output.bytes)
        fun _ => True) := by
    refine pairs_sign reads reorders (fun _ _ _ _ => .error _ trivial) ?_
    rintro sweep sweep' added offset moves ⟨s, s', adds⟩
    -- The engine adds nothing.
    obtain rfl : [] = added := (Prod.mk.inj (EStateM.Result.ok.inj adds).1).1
    unfold conclude
    rw [List.append_nil, List.append_nil]
    refine Pairs.bind Tandem.excuses
      (pairs_writeDirectory_of_moves blind _ offset reorders.perm moves) fun _ _ => ?_
    exact fun s t same => .ok same
  exact signs.ok ⟨rfl, rfl, rfl, .refl _, rfl⟩ run

end PassThrough

/-- For two archives that differ in the order of their directories, either run asks for a signing
block if the other one does, after the same calls, with the same data shown and the same bytes
written. If nothing is signed, both runs succeed or both fail, and the outputs differ in the order
of their directories. -/
theorem directory_order_is_immaterial {input input' : View} {sections : Sections}
    {records records' : List DirectoryRecord}
    (reorders : input.Reorders input' sections records records') (config : Config)
    (deflate : Bytes → Bytes) (sink : Sink) :
    (∀ (σ : Type) (engine : Engine σ) (start : σ), engine.ReadsBytes →
      let final := ending ((sign engine config input deflate).run
        { engine := start, output := sink })
      let final' := ending ((sign engine config input' deflate).run
        { engine := start, output := sink })
      (final.rounds ≠ [] ↔ final'.rounds ≠ []) ∧
        (final.rounds ≠ [] → SameApproach final final')) ∧
    (sink.Blind → ∀ strip start : Bool,
      let result := (sign (PassThrough.engine strip) config input deflate).run
        { engine := start, output := sink }
      let result' := (sign (PassThrough.engine strip) config input' deflate).run
        { engine := start, output := sink }
      ((∃ summary final, result = .ok summary final) ↔
        ∃ summary' final', result' = .ok summary' final') ∧
        ∀ summary final summary' final', result = .ok summary final →
          result' = .ok summary' final' →
          PassThrough.SameOutput records records' final.output.bytes final'.output.bytes) := by
  obtain ⟨before, back⟩ := reorders.symm
  refine ⟨fun σ engine start reads => ?_, fun blind strip start => ?_⟩
  · intro final final'
    have forth : final.rounds ≠ [] → SameApproach final final' :=
      sameApproach_of_reorders reads reorders config deflate start sink
    refine ⟨⟨fun asked => ?_, fun asked => ?_⟩, forth⟩
    · obtain ⟨_, _, _, _, _, -, asked', -⟩ := forth asked
      exact asked'.rounds_ne_nil
    · have same := sameApproach_of_reorders reads back config deflate start sink asked
      obtain ⟨_, _, _, _, _, -, asked', -⟩ := same
      exact asked'.rounds_ne_nil
  · intro result result'
    have forth {summary : Summary} {final : Session Bool} (run : result = .ok summary final) :=
      PassThrough.sameOutput_of_reorders reorders config deflate strip start blind run
    refine ⟨⟨?_, ?_⟩, ?_⟩
    · rintro ⟨summary, final, run⟩
      obtain ⟨summary', final', run', -⟩ := forth run
      exact ⟨summary', final', run'⟩
    · rintro ⟨summary', final', run'⟩
      obtain ⟨summary, final, run, -⟩ :=
        PassThrough.sameOutput_of_reorders back config deflate strip start blind run'
      exact ⟨summary, final, run⟩
    · intro summary final summary' final' run run'
      obtain ⟨_, _, other, same⟩ := forth run
      cases other.symm.trans run'
      exact same

/-! ### Two entries in both orders -/

namespace Sample

theorem inOrder_twoEntries {entries : View} (shows : entries.Shows twoEntries) :
    InOrder plain.alignment entries [recordAt 0x61 1, recordAt 0x62 41] := by
  obtain ⟨first, second⟩ := locate_twoEntries shows
  refine ⟨fun record mem => ?_, apart_twoEntries shows (.refl _)⟩
  rcases List.mem_pair.1 mem with rfl | rfl
  · exact ⟨_, first, rfl⟩
  · exact ⟨_, second, rfl⟩

end Sample

open PassThrough (rewrite SameOutput)

/-- The entries of the second archive are listed the other way round. -/
theorem pair_is_rewritten_alike :
    ∃ summary final summary' final',
      rewrite false Sample.plain (Sample.listing
        [Sample.recordAt 0x61 1, Sample.recordAt 0x62 41]) = .ok summary final ∧
      rewrite false Sample.plain (Sample.listing
        [Sample.recordAt 0x62 41, Sample.recordAt 0x61 1]) = .ok summary' final' ∧
      final.rounds ≠ [] ∧ SameApproach final final' ∧
      SameOutput [Sample.recordAt 0x61 1, Sample.recordAt 0x62 41]
        [Sample.recordAt 0x62 41, Sample.recordAt 0x61 1] final.output.bytes
          final'.output.bytes := by
  obtain ⟨sections, entries, archive, shows, offset, size⟩ := Sample.exists_isArchive_listing
    [Sample.recordAt 0x61 1, Sample.recordAt 0x62 41]
    (by decide +kernel) rfl (by decide +kernel)
  let input : View := View.ofBytes <| Sample.listing
    [Sample.recordAt 0x61 1, Sample.recordAt 0x62 41]
  let input' : View := View.ofBytes <| Sample.listing
    [Sample.recordAt 0x62 41, Sample.recordAt 0x61 1]
  have reorders : input.Reorders input' sections _ _ := {
    located := archive.located
    perm := .swap (Sample.recordAt 0x62 41) (Sample.recordAt 0x61 1) []
    shows := ⟨Sample.twoEntries, Sample.twoEnd.encode, View.shows_ofBytes _,
      View.shows_ofBytes _, offset, size⟩ }
  have whole := directory_order_is_immaterial reorders Sample.plain Deflate.deflate {}
  obtain ⟨-, approach⟩ := whole.1 Bool (PassThrough.engine false) false fun _ _ _ => rfl
  obtain ⟨both, outputs⟩ := whole.2 (fun _ _ _ _ _ _ _ => rfl) false false
  -- The entries stand in order already, so the first run goes through.
  have named : ∀ record ∈ [Sample.recordAt 0x61 1, Sample.recordAt 0x62 41],
      PassThrough.keeps false record.name = true := fun _ _ => rfl
  obtain ⟨summary, completes, -⟩ := completes_sign_of_no_additions (PassThrough.steady false)
    Deflate.deflate archive shows (Sample.inOrder_twoEntries shows) named (by decide)
    (Nat.mod_one _)
  obtain ⟨final, run, -⟩ := @completes { engine := false } (fun _ _ _ => rfl) rfl
  obtain ⟨summary', final', run'⟩ := both.1 ⟨summary, final, run⟩
  obtain ⟨outcome, described⟩ := sign_eq_ok run
  obtain ⟨_, _, last, -⟩ := described.endsIn.shown
  have asked : final.rounds ≠ [] := by
    intro none
    rw [none] at last
    cases last
  have ends : ending ((sign (PassThrough.engine false) Sample.plain input).run
      { engine := false }) = final := congrArg ending run
  have ends' : ending ((sign (PassThrough.engine false) Sample.plain input').run
      { engine := false }) = final' := congrArg ending run'
  rw [ends, ends'] at approach
  exact ⟨summary, final, summary', final', run, run', asked, approach asked,
    outputs summary final summary' final' run run'⟩

end ApkArchive.Signing

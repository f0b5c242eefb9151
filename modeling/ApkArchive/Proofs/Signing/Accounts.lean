import ApkArchive.Proofs.Signing.Entries
import Mathlib.Data.List.Forall2

/-!
# The counts of a run add up

The summary of a run is about its output, so it can be checked there. Every entry of the input was
copied, skipped or replaced, and every entry of the output was copied or added:

    copied + skipped + replaced = entries of the input
    copied + added = entries of the output

An entry counts as realigned if its extra field in the output is another one than in the input. The
block size is how far the directory was moved by the signing block.
-/

namespace ApkArchive.Signing

/-- The extra field of the local record to which a directory record points. -/
def localExtra? (entries : View) (record : DirectoryRecord) : Option Bytes :=
  (LocalRecord.locate entries record entries.size).toOption.map (·.extra)

/-- What the engine decided about the input entries, without their names. -/
def Session.dispositions (session : Session σ) : List Disposition :=
  session.decisions.map (·.2)

/-- The records of the input entries that were kept. -/
def Session.keptOf (session : Session σ) (records : List DirectoryRecord) : List DirectoryRecord :=
  records.filter fun record => (record.name, .keep) ∈ session.decisions

/-- The counts of a summary are those of the input with the given records and of the output, whose
directory has the records of the entries that were kept and then the new ones. -/
structure Accounts (summary : Summary) (final : Session σ) (entries : View)
    (records kept added : List DirectoryRecord) (endRecord : EndRecord) : Prop where
  copied : summary.copied = final.dispositions.count .keep
  skipped : summary.skipped = final.dispositions.count .skip
  replaced : summary.replaced = final.dispositions.count .replace
  input : summary.copied + summary.skipped + summary.replaced = records.length
  directory : ∀ offset, Directory.parse (summary.copied + summary.added) offset
    (Directory.encode (kept ++ added)) = .ok (kept ++ added)
  output : summary.copied + summary.added = (kept ++ added).length
  diskEntries : endRecord.diskEntries.toNat = summary.copied + summary.added
  totalEntries : endRecord.totalEntries.toNat = summary.copied + summary.added
  /-- The new directory has the kept records in their old order, moved. -/
  moved : List.Forall₂ (fun old new => ∃ offset, new = old.withLocalOffset offset)
    (final.keptOf records) kept
  /-- Both extra fields can be read, and the count is that of the entries where they differ. -/
  realigned : ∀ output : View, output.Shows final.output.bytes →
    (∀ record ∈ final.keptOf records, (localExtra? entries record).isSome) ∧
    (∀ record ∈ kept, (localExtra? output record).isSome) ∧
    summary.realigned = ((final.keptOf records).zip kept).countP fun (old, new) =>
      localExtra? entries old ≠ localExtra? output new
  blockSize : ∀ shown answer, (shown, answer) ∈ final.rounds →
    endRecord.directoryOffset.toNat = shown.entries.size + summary.blockSize
  outputSize : summary.outputSize = final.output.bytes.length

/-! ### What became of the entries -/

/-- There are three things that can become of an entry. -/
theorem Disposition.count_add_count (dispositions : List Disposition) :
    dispositions.count .keep + dispositions.count .skip + dispositions.count .replace =
      dispositions.length := by
  induction dispositions with
  | nil => rfl
  | cons disposition rest ih =>
    rw [List.length_cons, ← ih]
    cases disposition <;> simp <;> omega

/-- Members that become `a` are counted by what they become, or by any other sign of it. -/
theorem count_map_eq_countP [BEq β] [LawfulBEq β] {f : α → β} {b : β} {p : α → Bool} {l : List α}
    (sign : ∀ a, f a = b ↔ p a = true) : (l.map f).count b = l.countP p := by
  rw [List.count, List.countP_map]
  refine List.countP_congr fun a _ => ?_
  rw [Function.comp_apply, beq_iff_eq]
  exact sign a

theorem Piece.fate_eq_skipped_iff {config : Config} {piece : Piece} :
    piece.fate config = .skipped ↔ piece.decision.disposition = .skip := by
  unfold fate
  cases piece.decision.disposition <;> simp

theorem Piece.fate_eq_replaced_iff {config : Config} {piece : Piece} :
    piece.fate config = .replaced ↔ piece.decision.disposition = .replace := by
  unfold fate
  cases piece.decision.disposition <;> simp

/-- Only entries that are kept are realigned, and those whose plan is another extra field. -/
theorem Piece.isRealigned_fate_iff {config : Config} {piece : Piece} :
    (piece.fate config).isRealigned = true ↔ piece.isKept = true ∧
      (config.alignment.plan piece.found piece.offset).extraField piece.found ≠
        piece.found.extra := by
  rw [ne_eq, ← Alignment.Policy.plan_eq_unchanged_iff, isKept, fate]
  cases piece.decision.disposition <;> simp [Fate.isRealigned]

namespace Outcome

variable {config : Config} {input : View} {deflate : Bytes → Bytes}
variable (outcome : Outcome config input deflate)

/-- The pieces that were kept, in the order of the directory. -/
def keptPieces : List Piece := outcome.listed.filter Piece.isKept

theorem mem_pieces_of_mem_keptPieces {piece : Piece} (mem : piece ∈ outcome.keptPieces) :
    piece ∈ outcome.pieces ∧ piece.isKept = true := by
  obtain ⟨listed, isKept⟩ := List.mem_filter.1 mem
  exact ⟨outcome.perm.mem_iff.1 listed, isKept⟩

theorem length_pieces : outcome.pieces.length = outcome.records.length := by
  rw [← outcome.perm.length_eq, ← outcome.listing, List.length_map]

variable {outcome}

theorem Describes.count_dispositions {final : Session σ} (described : outcome.Describes final)
    (disposition : Disposition) :
    final.dispositions.count disposition =
      outcome.pieces.countP fun piece => piece.decision.disposition = disposition := by
  rw [Session.dispositions, described.decisions, List.map_map]
  exact count_map_eq_countP fun _ => decide_eq_true_iff.symm

theorem Describes.length_dispositions {final : Session σ} (described : outcome.Describes final) :
    final.dispositions.length = outcome.records.length := by
  rw [Session.dispositions, described.decisions, List.map_map, List.length_map,
    outcome.length_pieces]

theorem Describes.copied_eq {final : Session σ} (described : outcome.Describes final) :
    outcome.summary.copied = final.dispositions.count .keep := by
  rw [described.count_dispositions, ← outcome.perm.countP_eq, List.countP_eq_length_filter]
  exact List.length_map _

theorem Describes.count_fates {final : Session σ} (described : outcome.Describes final)
    {fate : Fate} {disposition : Disposition}
    (sign : ∀ piece : Piece, piece.fate config = fate ↔ piece.decision.disposition = disposition) :
    outcome.fates.count fate = final.dispositions.count disposition := by
  rw [described.count_dispositions, fates]
  exact count_map_eq_countP fun piece => (sign piece).trans decide_eq_true_iff.symm

/-! ### Where the extra field has changed -/

variable {view : View} {rest : Bytes}

theorem localExtra?_old (outcome : Outcome config input deflate) {piece : Piece}
    (mem : piece ∈ outcome.pieces) :
    localExtra? outcome.entries piece.record = some piece.found.extra := by
  rw [localExtra?, (outcome.sound piece mem).located]
  rfl

/-- The extra field in the output is the one that was planned. -/
theorem localExtra?_new (shows : view.Shows (outcome.body ++ rest)) {piece : Piece}
    (mem : piece ∈ outcome.pieces) (isKept : piece.isKept = true) :
    localExtra? view piece.moved =
      some ((config.alignment.plan piece.found piece.offset).extraField piece.found) := by
  obtain ⟨new, copied, placed⟩ := outcome.placed_moved shows mem isKept
  obtain ⟨fits, rfl⟩ := copied.planned
  rw [localExtra?, placed.located]
  rfl

theorem realigned_eq (shows : view.Shows (outcome.body ++ rest)) :
    outcome.summary.realigned =
      ((outcome.keptPieces.map Piece.record).zip outcome.keptRecords).countP fun (old, new) =>
        localExtra? outcome.entries old ≠ localExtra? view new := by
  have counted : outcome.summary.realigned =
      outcome.listed.countP fun piece => (piece.fate config).isRealigned := by
    show outcome.fates.countP Fate.isRealigned = _
    rw [fates, List.countP_map, outcome.perm.countP_eq]
    rfl
  have pairs : (outcome.keptPieces.map Piece.record).zip outcome.keptRecords =
      outcome.keptPieces.map fun piece => (piece.record, piece.moved) := List.zip_map'
  rw [counted, pairs, List.countP_map, keptPieces, List.countP_filter]
  refine List.countP_congr fun piece listed => ?_
  have mem := outcome.perm.mem_iff.1 listed
  rw [Piece.isRealigned_fate_iff, Bool.and_eq_true, and_comm]
  refine and_congr_left fun isKept => ?_
  rw [Function.comp_apply, decide_eq_true_iff, outcome.localExtra?_old mem,
    outcome.localExtra?_new shows mem isKept, ne_eq, ne_eq, Option.some.injEq, eq_comm]

/-! ### The summary -/

theorem Describes.keptOf_eq {final : Session σ} (described : outcome.Describes final) :
    final.keptOf outcome.records = outcome.keptPieces.map Piece.record :=
  described.filter_records

theorem Describes.accounts {final : Session σ} (described : outcome.Describes final) :
    Accounts outcome.summary final outcome.entries outcome.records outcome.keptRecords
      (outcome.additions.map Addition.record) outcome.endRecord := by
  have copied := described.copied_eq
  have skipped : outcome.summary.skipped = final.dispositions.count .skip :=
    described.count_fates fun _ => Piece.fate_eq_skipped_iff
  have replaced : outcome.summary.replaced = final.dispositions.count .replace :=
    described.count_fates fun _ => Piece.fate_eq_replaced_iff
  have output : outcome.summary.copied + outcome.summary.added = outcome.directory.length := by
    rw [directory, List.length_append, List.length_map]
    rfl
  obtain ⟨-, -, diskEntries, totalEntries⟩ := described.closed.last_fields
  have parsed (offset : Nat) : Directory.parse (outcome.summary.copied + outcome.summary.added)
      offset (Directory.encode outcome.directory) = .ok outcome.directory :=
    Directory.parse_eq_ok_iff.2 ⟨rfl, output.symm, described.distinct⟩
  refine ⟨copied, skipped, replaced, ?_, parsed, output, diskEntries.trans output.symm,
    totalEntries.trans output.symm, ?_, ?_, ?_, congrArg List.length described.output.symm⟩
  · rw [copied, skipped, replaced, Disposition.count_add_count, described.length_dispositions]
  · rw [described.keptOf_eq, keptRecords, ← keptPieces, List.forall₂_map_left_iff,
      List.forall₂_map_right_iff, List.forall₂_same]
    exact fun piece _ => ⟨_, rfl⟩
  · intro view shows
    rw [described.output, bytes] at shows
    rw [described.keptOf_eq]
    refine ⟨?_, ?_, outcome.realigned_eq shows⟩
    · intro record mem
      obtain ⟨piece, kept, rfl⟩ := List.mem_map.1 mem
      rw [outcome.localExtra?_old (outcome.mem_pieces_of_mem_keptPieces kept).1]
      rfl
    · intro record mem
      obtain ⟨piece, kept, rfl⟩ := List.mem_map.1 mem
      obtain ⟨mem', isKept⟩ := outcome.mem_pieces_of_mem_keptPieces kept
      rw [outcome.localExtra?_new shows mem' isKept]
      rfl
  · intro shown answer mem
    obtain ⟨entries, body, rounds⟩ := described.rounds
    rw [rounds] at mem
    obtain ⟨round, -, same⟩ := List.mem_map.1 mem
    have size : shown.entries.size = outcome.body.length := by
      rw [← body, ← congrArg (fun round => round.1.entries.size) same]
      simp [Round.asked]
    rw [size]
    exact described.endRecord_fields.1

end Outcome

theorem summary_accounts_for_entries {engine : Engine σ} {config : Config} {input : View}
    {deflate : Bytes → Bytes} {start : σ} {sink : Sink} {summary : Summary} {final : Session σ}
    (run : (sign engine config input deflate).run { engine := start, output := sink } =
      .ok summary final) :
    ∃ sections records entries kept added endRecord,
      input.IsArchive sections records entries ∧ final.EndsIn (kept ++ added) endRecord ∧
        Accounts summary final entries records kept added endRecord := by
  obtain ⟨outcome, described, -, rfl⟩ := sign_describes run
  exact ⟨outcome.sections, outcome.records, outcome.entries, outcome.keptRecords,
    outcome.additions.map Addition.record, outcome.endRecord, outcome.archive, described.endsIn,
    described.accounts⟩

/-- One entry is copied and realigned, one is added, and a block of 32 bytes is put behind three
zero bytes. -/
theorem sample_summary_accounts :
    ∃ summary final, Sample.run Sample.script = .ok summary final ∧
      summary.copied = 1 ∧ summary.realigned = 1 ∧ summary.added = 1 ∧ summary.blockSize = 35 ∧
      ∃ sections records entries kept added endRecord,
        Sample.input.IsArchive sections records entries ∧ final.EndsIn (kept ++ added) endRecord ∧
          Accounts summary final entries records kept added endRecord := by
  have counted : (EStateM.run' (sign Sample.script.engine {} Sample.input Deflate.deflate)
      { engine := {}, output := {} }).map (fun summary =>
        (summary.copied, summary.realigned, summary.added, summary.blockSize)) =
      some (1, 1, 1, 35) := by
    decide +kernel
  obtain ⟨summary, final, result⟩ := Sample.exists_run
  have run : (sign Sample.script.engine {} Sample.input Deflate.deflate).run
      { engine := {}, output := {} } = .ok summary final := result
  delta EStateM.run' at counted
  rw [run] at counted
  obtain ⟨copied, realigned, added, blockSize⟩ : summary.copied = 1 ∧ summary.realigned = 1 ∧
      summary.added = 1 ∧ summary.blockSize = 35 := by
    simpa using counted
  exact ⟨summary, final, result, copied, realigned, added, blockSize,
    summary_accounts_for_entries result⟩

end ApkArchive.Signing

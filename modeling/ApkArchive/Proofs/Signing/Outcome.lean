import ApkArchive.Proofs.Signing.Additions
import ApkArchive.Proofs.Signing.Closing
import ApkArchive.Signing.Script
import Mathlib.Data.List.Nodup

/-!
# What a successful run has done

`Outcome` puts together what the parts of a run have done: the pieces of the sweep, the new entries
and the closing of the output. Its bytes are the bytes of the output:

    pieces, tail, new entries, signing block, directory, end record

Every property of the output is read off an outcome, not off the run.
-/

namespace ApkArchive.Signing

/-- All that is written before signing block and directory: a gap before each entry of the input
and, if it was kept, its local record; a last gap; the new entries. -/
def bodyBytes (pieces : List Piece) (tail : Bytes) (additions : List Addition) : Bytes :=
  pieces.flatMap Piece.bytes ++ tail ++ appendedBytes additions

/-- What a successful run has read, decided and written. -/
structure Outcome (config : Config) (input : View) (deflate : Bytes → Bytes) where
  sections : Sections
  records : List DirectoryRecord
  entries : View
  archive : input.IsArchive sections records entries
  /-- What was made of the entries, in file order. -/
  pieces : List Piece
  /-- The same pieces in the order of the directory. -/
  listed : List Piece
  /-- How far the entries reach. -/
  covered : Nat
  order : pieces.map (fun piece => (piece.record, piece.number)) = Directory.inFileOrder records
  perm : listed.Perm pieces
  listing : listed.map Piece.record = records
  sound : ∀ piece ∈ pieces, piece.Sound config entries
  laid : Laid entries 0 0 pieces covered
  additions : List Addition
  appended : Appended deflate (pieces.flatMap Piece.bytes ++
    entries.bytes covered (entries.size - covered)).length additions
  rounds : List Round
  last : Round

namespace Outcome

variable {config : Config} {input : View} {deflate : Bytes → Bytes}
variable (outcome : Outcome config input deflate)

/-- What was copied after the last entry. -/
def tail : Bytes :=
  outcome.entries.bytes outcome.covered (outcome.entries.size - outcome.covered)

/-- All bytes before the signing block. -/
def body : Bytes := bodyBytes outcome.pieces outcome.tail outcome.additions

/-- The records of the entries that were kept, in the order of the input. -/
def keptRecords : List DirectoryRecord := (outcome.listed.filter Piece.isKept).map Piece.moved

/-- The directory of the output. -/
def directory : List DirectoryRecord :=
  outcome.keptRecords ++ outcome.additions.map Addition.record

/-- What stands between the entries and the directory. -/
def request : BlockRequest := .orEmpty outcome.last.2

/-- The end record of the output. -/
def endRecord : EndRecord :=
  outcome.last.1.withDirectoryOffset
    (UInt32.ofNat (outcome.body.length + outcome.request.size))

/-- All bytes of the output. -/
def bytes : Bytes :=
  outcome.body ++ (outcome.request.bytes ++
    (Directory.encode outcome.directory ++ outcome.endRecord.encode))

/-- What became of the entries, in file order. -/
def fates : List Fate := outcome.pieces.map (Piece.fate config)

/-- The counts of the run. -/
def summary : Summary where
  copied := outcome.keptRecords.length
  realigned := outcome.fates.countP Fate.isRealigned
  skipped := outcome.fates.count .skipped
  replaced := outcome.fates.count .replaced
  added := outcome.additions.length
  blockSize := outcome.request.size
  outputSize := outcome.bytes.length

/-- The outcome is the outcome of a run that ended in the given state. -/
structure Describes (final : Session σ) : Prop where
  closed : Closed outcome.sections.endRecord outcome.directory outcome.body.length outcome.rounds
    outcome.last
  distinct : (Directory.names outcome.directory).Nodup
  output : final.output.bytes = outcome.bytes
  aligned : final.output.bytes.length % max 1 (config.sizeMultiple.getD 1) = 0
  decisions : final.decisions = outcome.pieces.map
    fun piece => (piece.record.name, piece.decision.disposition)
  supplies : final.supplies = outcome.additions.map Addition.entry
  rounds : ∃ shown : ByteArray, shown.data.toList = outcome.body ∧
    final.rounds = outcome.rounds.map (Round.asked shown (Directory.encode outcome.directory))

theorem ascending : outcome.pieces.Pairwise fun a b =>
    a.record.localOffset.toNat ≤ b.record.localOffset.toNat := by
  have sorted := Directory.pairwise_inFileOrder outcome.records
  rw [← outcome.order, List.pairwise_map] at sorted
  exact sorted

/-- The end record is the one that was shown last, but for the place of the directory. -/
theorem endRecordWith_last {shown : ByteArray} (body : shown.data.toList = outcome.body) :
    Unsigned.endRecordWith ⟨shown, Directory.encode outcome.directory, outcome.last.1⟩
      outcome.last.2 = outcome.endRecord := by
  have size : shown.size = outcome.body.length := by rw [← body]; simp
  rw [Unsigned.endRecordWith, size]
  rfl

/-- A piece that was kept has its record in the new directory. -/
theorem moved_mem {piece : Piece} (mem : piece ∈ outcome.pieces) (isKept : piece.isKept = true) :
    piece.moved ∈ outcome.directory := by
  have listed : piece ∈ outcome.listed := outcome.perm.mem_iff.2 mem
  exact List.mem_append_left _ (List.mem_map_of_mem (List.mem_filter.2 ⟨listed, isKept⟩))

namespace Describes

variable {outcome} {final : Session σ}

theorem getLast?_rounds (described : outcome.Describes final) {shown : ByteArray}
    (rounds : final.rounds =
      outcome.rounds.map (Round.asked shown (Directory.encode outcome.directory))) :
    final.rounds.getLast? =
      some (outcome.last.asked shown (Directory.encode outcome.directory)) := by
  rw [rounds, List.getLast?_map, described.closed.negotiated.closing]
  rfl

/-- The end record describes the output in which it stands. -/
theorem endRecord_fields (described : outcome.Describes final) :
    outcome.endRecord.directoryOffset.toNat = outcome.body.length + outcome.request.size ∧
      outcome.endRecord.directorySize.toNat = (Directory.encode outcome.directory).length ∧
        outcome.endRecord.totalEntries.toNat = outcome.directory.length := by
  obtain ⟨-, size, -, count⟩ := described.closed.last_fields
  exact ⟨UInt32.toNat_ofNat_of_lt' described.closed.offsetFits, size, count⟩

theorem endsIn (described : outcome.Describes final) :
    final.EndsIn outcome.directory outcome.endRecord where
  shown := by
    obtain ⟨shown, body, rounds⟩ := described.rounds
    exact ⟨_, outcome.last.2, described.getLast?_rounds rounds,
      (outcome.endRecordWith_last body).symm⟩
  bytes := by
    refine ⟨outcome.body ++ outcome.request.bytes, ?_, ?_⟩
    · rw [described.output, bytes, List.append_assoc]
    · rw [described.endRecord_fields.1, List.length_append, BlockRequest.length_bytes]

/-- An entry was kept if the engine decided to keep the entry of its name. -/
theorem isKept_iff (described : outcome.Describes final) {piece : Piece}
    (mem : piece ∈ outcome.pieces) :
    piece.isKept = true ↔ (piece.record.name, Disposition.keep) ∈ final.decisions := by
  rw [described.decisions, Piece.isKept, decide_eq_true_eq, List.mem_map]
  constructor
  · intro kept
    exact ⟨piece, mem, by rw [kept]⟩
  · rintro ⟨other, mem', same⟩
    rw [Prod.mk.injEq] at same
    have names : (outcome.pieces.map fun piece => piece.record.name).Nodup := by
      have distinct := outcome.archive.distinct
      rw [← outcome.listing, Directory.names, List.map_map] at distinct
      exact ((outcome.perm.map _).nodup_iff).1 distinct
    -- Names are distinct, so the decision for the name is the decision for the piece.
    rw [← List.inj_on_of_nodup_map names mem' mem same.1]
    exact same.2

/-- The records of the input that the engine decided to keep are those of the pieces that were
kept. -/
theorem filter_records (described : outcome.Describes final) :
    (outcome.records.filter fun record => (record.name, .keep) ∈ final.decisions) =
      (outcome.listed.filter Piece.isKept).map Piece.record := by
  rw [← outcome.listing, List.filter_map]
  congr 1
  apply List.filter_congr
  intro piece mem
  rw [Bool.eq_iff_iff, described.isKept_iff (outcome.perm.mem_iff.1 mem)]
  exact decide_eq_true_iff

end Describes

end Outcome

theorem names_moved (pieces : List Piece) :
    Directory.names (pieces.map Piece.moved) = Directory.names (pieces.map Piece.record) := by
  rw [Directory.names, Directory.names, List.map_map, List.map_map]
  rfl

/-- The names of the entries that are kept are distinct if all names are. -/
theorem nodup_names_kept {pieces : List Piece}
    (distinct : (Directory.names (pieces.map Piece.record)).Nodup) :
    (Directory.names ((pieces.filter Piece.isKept).map Piece.moved)).Nodup := by
  rw [names_moved, Directory.names, List.map_map]
  rw [Directory.names, List.map_map] at distinct
  exact distinct.sublist (List.filter_sublist.map _)

/-! ### What the milestones say -/

theorem filterMap_map_of_some {f : κ → Call} {g : Call → Option α} {k : κ → α}
    (always : ∀ x, g (f x) = some (k x)) (l : List κ) : (l.map f).filterMap g = l.map k := by
  induction l with
  | nil => rfl
  | cons x rest ih => rw [List.map_cons, List.filterMap_cons_some (always x), ih, List.map_cons]

theorem filterMap_map_of_none {f : κ → Call} {g : Call → Option α}
    (never : ∀ x, g (f x) = none) (l : List κ) : (l.map f).filterMap g = [] := by
  induction l with
  | nil => rfl
  | cons x rest ih => rw [List.map_cons, List.filterMap_cons_none (never x), ih]

section Milestones

variable (pieces : List Piece) (supplied : Option (List NewEntry))
variable (shown : ByteArray) (directory : Bytes) (rounds : List Round)
variable (answer : Option BlockRequest)

/-- The milestones of a run, from the first call to the last one. -/
def milestones (block : Option View) : List Call :=
  .inputBlock block :: (pieces.map Piece.call ++ (supplyCalls supplied ++
    (closingCalls shown directory rounds answer ++ [.finished])))

theorem decisions_milestones (block : Option View) :
    (milestones pieces supplied shown directory rounds answer block).filterMap Call.decision? =
      pieces.map fun piece => (piece.record.name, piece.decision.disposition) := by
  have decided : (pieces.map Piece.call).filterMap Call.decision? =
      pieces.map fun piece => (piece.record.name, piece.decision.disposition) :=
    filterMap_map_of_some (f := Piece.call) (g := Call.decision?) (fun _ => rfl) pieces
  have closing : (rounds.map (Round.call shown directory)).filterMap Call.decision? = [] :=
    filterMap_map_of_none (fun _ => rfl) rounds
  simp only [milestones, closingCalls, List.filterMap_cons, List.filterMap_append, decided, closing,
    Call.decision?]
  cases supplied <;> cases answer <;> simp [supplyCalls, List.filterMap_cons, Call.decision?]

theorem supplies_milestones (block : Option View) :
    ((milestones pieces supplied shown directory rounds answer block).filterMap
      Call.supply?).flatten = supplied.getD [] := by
  have decided : (pieces.map Piece.call).filterMap Call.supply? = [] :=
    filterMap_map_of_none (fun _ => rfl) pieces
  have closing : (rounds.map (Round.call shown directory)).filterMap Call.supply? = [] :=
    filterMap_map_of_none (fun _ => rfl) rounds
  simp only [milestones, closingCalls, List.filterMap_cons, List.filterMap_append, decided, closing,
    Call.supply?]
  cases supplied <;> cases answer <;> simp [supplyCalls, List.filterMap_cons, Call.supply?]

theorem rounds_milestones (block : Option View) :
    (milestones pieces supplied shown directory rounds answer block).filterMap Call.round? =
      rounds.map (Round.asked shown directory) := by
  have decided : (pieces.map Piece.call).filterMap Call.round? = [] :=
    filterMap_map_of_none (fun _ => rfl) pieces
  have closing : (rounds.map (Round.call shown directory)).filterMap Call.round? =
      rounds.map (Round.asked shown directory) :=
    filterMap_map_of_some (f := Round.call shown directory) (g := Call.round?) (fun _ => rfl) rounds
  simp only [milestones, closingCalls, List.filterMap_cons, List.filterMap_append, decided, closing,
    Call.round?]
  cases supplied <;> cases answer <;> simp [supplyCalls, List.filterMap_cons, Call.round?]

end Milestones

/-! ### The run -/

open Run

/-- What sweep and additions have written together is the body of an outcome, of which only the
closing is left open. -/
theorem exists_draft {engine : Engine σ} {config : Config} {input : View} {deflate : Bytes → Bytes}
    {sections : Sections} {records : List DirectoryRecord} {entries : View}
    (archive : input.IsArchive sections records entries) {s swept extended : Session σ}
    {sweep : Sweep} {added : List DirectoryRecord} {offset : Nat}
    (sweeps : sweepEntries engine config entries records s = .ok sweep swept)
    (adds : addEntries engine deflate sweep.records sweep.offset swept =
      .ok (added, offset) extended) :
    ∃ (draft : Outcome config input deflate) (supplied : Option (List NewEntry)),
      draft.sections = sections ∧ draft.entries = entries ∧
      sweep.records = draft.keptRecords ∧ added = draft.additions.map Addition.record ∧
      sweep.fates = draft.fates.reverse ∧ offset = draft.body.length ∧
      (Directory.names draft.directory).Nodup ∧
      draft.additions.map Addition.entry = supplied.getD [] ∧
      (∀ addition ∈ draft.additions, addition.Stamped deflate (newStamp draft.keptRecords)) ∧
      Extends s extended draft.body (draft.pieces.map Piece.call ++ supplyCalls supplied) := by
  obtain ⟨pieces, covered, order, sound, laid, swept', counts, fates⟩ := sweepEntries_eq_ok sweeps
  obtain ⟨listed, perm, listing, recordsKept⟩ := exists_directory_order order
  have keptRecords := recordsKept sweep (Sweep.keptSoFar_of_fates fates)
  have keptDistinct : (Directory.names sweep.records).Nodup := by
    rw [keptRecords]
    exact nodup_names_kept (by rw [listing]; exact archive.distinct)
  obtain ⟨supplied, additions, additionsEntry, rfl, appended, made, added, counts', distinct⟩ :=
    addEntries_eq_ok adds
  replace distinct := distinct keptDistinct
  rw [counts] at appended counts'
  rw [keptRecords] at distinct made
  let draft : Outcome config input deflate := {
    sections, records, entries, archive, pieces, listed, covered, order, perm, listing, sound, laid
    additions, appended, rounds := [], last := (sections.endRecord, none) }
  exact ⟨draft, supplied, rfl, rfl, keptRecords, rfl, fates,
    counts'.trans List.length_append.symm, distinct, additionsEntry, made, swept'.trans added⟩

/-- A successful run on an empty output has an outcome, and the output, the calls and the counts are
what the outcome says. -/
theorem sign_describes {engine : Engine σ} {config : Config} {input : View}
    {deflate : Bytes → Bytes} {start : σ} {sink : Sink} {summary : Summary} {final : Session σ}
    (run : (sign engine config input deflate).run { engine := start, output := sink } =
      .ok summary final) :
    ∃ outcome : Outcome config input deflate, outcome.Describes final ∧
      (∀ addition ∈ outcome.additions, addition.Stamped deflate (newStamp outcome.keptRecords)) ∧
      summary = outcome.summary := by
  unfold sign at run
  replace run := run_position_eq_ok run
  obtain ⟨empty, run⟩ := run_guard_eq_ok run
  obtain ⟨sections, located, run⟩ := run_ofExcept_eq_ok_iff.1 run
  obtain ⟨_, flawed, flaw, run⟩ := run_bind_eq_ok_iff.1 run
  obtain ⟨directory, read, run⟩ := run_ofExcept_eq_ok_iff.1 run
  obtain ⟨records, parsed, run⟩ := run_ofExcept_eq_ok_iff.1 run
  obtain ⟨_, noted, note, run⟩ := run_bind_eq_ok_iff.1 run
  obtain ⟨_, asked, ask, run⟩ := run_bind_eq_ok_iff.1 run
  obtain ⟨entries, sliced, run⟩ := run_ofExcept_eq_ok_iff.1 run
  obtain ⟨sweep, swept, sweeps, run⟩ := run_bind_eq_ok_iff.1 run
  obtain ⟨⟨added, offset⟩, extended, adds, run⟩ := run_bind_eq_ok_iff.1 run
  obtain ⟨blockSize, closed, closes, run⟩ := run_bind_eq_ok_iff.1 run
  replace run := run_position_eq_ok run
  obtain ⟨_, finished, finish, run⟩ := run_bind_eq_ok_iff.1 run
  obtain ⟨_, told, tell, run⟩ := run_bind_eq_ok_iff.1 run
  obtain ⟨rfl, rfl⟩ := run_pure_eq_ok_iff.1 run
  -- The output is empty at the start, so what is counted from here on is its position.
  have nothing : sink.bytes = [] := List.length_eq_zero_iff.1 (Decidable.not_not.1 empty)
  have archive : input.IsArchive sections records entries :=
    ⟨located, ⟨directory, read, parsed⟩, sliced⟩
  have opened := ((note?_extends flaw).trans (note_extends note)).trans (ask_extends ask)
  have origin : asked.output.bytes = [] := opened.output.trans (by rw [nothing]; rfl)
  obtain ⟨draft, supplied, rfl, rfl, kept, rfl, fates, counts, distinct, supplies, made, wrote⟩ :=
    exists_draft archive sweeps adds
  have bodyEq : extended.output.bytes = draft.body := by
    rw [wrote.output, origin, List.nil_append]
  have position : offset = extended.output.position := by
    refine addEntries_counts (sweepEntries_counts ?_ sweeps) adds
    rw [Sink.position_eq, origin]
    rfl
  obtain ⟨rounds, last, shut, closing, aligned, rfl⟩ := writeDirectory_eq_ok position closes
  have ended := (ask_extends finish).trans (note_extends tell)
  have all := opened.trans (wrote.trans (closing.trans ended))
  rw [counts] at shut closing all
  rw [kept] at shut closing all ⊢
  let outcome : Outcome config input deflate := { draft with rounds, last }
  have reached : told.milestones = milestones draft.pieces supplied extended.output.contents
      (Directory.encode outcome.directory) rounds last.2
        (draft.sections.signingBlock?.map (·.contents)) := by
    have milestones := all.milestones
    rw [List.append_assoc (draft.pieces.map Piece.call)] at milestones
    exact milestones
  have outputEq : closed.output.bytes = outcome.bytes := by
    rw [closing.output, bodyEq]
    rfl
  refine ⟨outcome, ⟨shut, distinct, ?_, ?_, ?_, ?_, ?_⟩, made, ?_⟩
  · rw [ended.output, outputEq]
    exact List.append_nil _
  · rw [ended.length_output]
    exact aligned
  · rw [Session.decisions_eq, reached, decisions_milestones]
  · rw [Session.supplies_eq, reached, supplies_milestones]
    exact supplies.symm
  · refine ⟨extended.output.contents, bodyEq, ?_⟩
    rw [Session.rounds_eq, reached, rounds_milestones]
  · rw [outputEq, fates, List.countP_reverse, List.count_reverse, List.count_reverse]
    simp only [Outcome.summary, Outcome.fates, Outcome.keptRecords, Outcome.request,
      List.length_map, outcome]

theorem sign_eq_ok {engine : Engine σ} {config : Config} {input : View} {deflate : Bytes → Bytes}
    {start : σ} {sink : Sink} {summary : Summary} {final : Session σ}
    (run : (sign engine config input deflate).run { engine := start, output := sink } =
      .ok summary final) :
    ∃ outcome : Outcome config input deflate, outcome.Describes final := by
  obtain ⟨outcome, described, -⟩ := sign_describes run
  exact ⟨outcome, described⟩

/-! ### A small archive

One stored entry whose data is not aligned, with bytes before and after it that belong to no entry.
The script keeps it, adds an entry and asks for a signing block. -/

namespace Sample

def data : Bytes := [1, 2, 3]

def record : DirectoryRecord where
  madeBy := 20
  needed := 10
  flags := 0
  methodCode := 0
  time := 0
  date := 33
  crc32 := Crc32.checksum data
  compressedSize := 3
  uncompressedSize := 3
  disk := 0
  internalAttributes := 0
  externalAttributes := 0
  localOffset := 2
  nameBytes := [0x61]
  extra := []
  comment := []
  nameFits := Nat.le_of_ble_eq_true rfl
  extraFits := Nat.le_of_ble_eq_true rfl
  commentFits := Nat.le_of_ble_eq_true rfl

def header : LocalHeader where
  signature := LocalHeader.magic
  needed := 10
  flags := 0
  methodCode := 0
  time := 0
  date := 33
  crc32 := Crc32.checksum data
  compressedSize := 3
  uncompressedSize := 3
  nameSize := 1
  extraSize := 0

def entries : Bytes := [7, 7] ++ header.encode ++ record.nameBytes ++ data ++ [8, 8]

def endRecord : EndRecord where
  diskNumber := 0
  directoryDisk := 0
  diskEntries := 1
  totalEntries := 1
  directorySize := UInt32.ofNat record.encode.length
  directoryOffset := UInt32.ofNat entries.length
  commentLength := 0
  comment := []

/-- The end record of an archive without entries that has so many bytes before it. -/
def emptyEnd (size : UInt32) : EndRecord where
  diskNumber := 0
  directoryDisk := 0
  diskEntries := 0
  totalEntries := 0
  directorySize := 0
  directoryOffset := size
  commentLength := 0
  comment := []

def input : View := View.ofBytes (entries ++ record.encode ++ endRecord.encode)

def script : Script where
  additions := some [{ name := "b", data := [9, 9] }]
  blocks := [some { padding := 3, block := SigningBlock.encode [] }]

/-- The run of a script on the archive. -/
def run (script : Script) : EStateM.Result Error (Session Script.State) Summary :=
  (sign script.engine {} input Deflate.deflate).run { engine := {}, output := {} }

/-- Whether a run succeeds and leaves a session like this. -/
def succeeds (script : Script) (p : Session Script.State → Bool) : Bool :=
  match run script with
  | .ok _ final => p final
  | .error .. => false

theorem exists_of_succeeds {script : Script} {p : Session Script.State → Bool}
    (h : succeeds script p = true) :
    ∃ summary final, run script = .ok summary final ∧ p final = true := by
  unfold succeeds at h
  split at h
  · next summary final result => exact ⟨summary, final, result, h⟩
  · cases h

theorem exists_run : ∃ summary final, run script = .ok summary final := by
  have succeeds : succeeds script (fun _ => true) = true := by decide +kernel
  obtain ⟨summary, final, result, -⟩ := exists_of_succeeds succeeds
  exact ⟨summary, final, result⟩

end Sample
end ApkArchive.Signing

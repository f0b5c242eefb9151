import ApkArchive.Proofs.Alignment.Plan
import ApkArchive.Proofs.Signing.Run
import ApkArchive.Proofs.Zip.Emission
import ApkArchive.Proofs.Zip.FileOrder
import ApkArchive.Signing.Sign

/-!
# What a sweep makes of the input entries

A sweep takes the entries in file order and makes a piece of each: first the bytes that lie
between it and all entries before it, then its local record if it is kept. `Laid` says how the
pieces follow each other, in the input and in the output.

    covered up to the furthest end so far   gap   local record
    ------------------------------------- | --- | ------------
-/

namespace ApkArchive.Signing

open LocalRecord (Layout emits_copy holds_of_copy copyWithExtra_eq_ok)

/-! ### Pieces -/

/-- `new` is the local record `old` of an input entry, as it is planned for an offset of the
output. -/
structure Copied (config : Config) (entries : View) {record : DirectoryRecord}
    (old : Layout record) (offset : Nat) (new : Layout record) : Prop where
  offsetFits : offset < UInt32.size
  held : entries.Holds (record.localOffset.toNat + old.found.dataStart) old.data.length
  planned : ∃ fits, new =
    old.withExtra ((config.alignment.plan old.found offset).extraField old.found) fits

/-- What a sweep has made of an entry. -/
structure Piece where
  record : DirectoryRecord
  /-- The place of the record in the directory. -/
  number : Nat
  /-- The local record in the input. -/
  layout : Layout record
  /-- The answer of the engine. -/
  decision : Decision
  /-- What was copied before the entry. -/
  gap : Bytes
  /-- Where the entry begins in the output, if it was kept. -/
  offset : Nat
  /-- What was written of the entry. -/
  written : Bytes

namespace Piece

/-- The local record as it was found in the input. -/
def found (piece : Piece) : LocalRecord := piece.layout.found

def isKept (piece : Piece) : Bool := piece.decision.disposition = .keep

/-- All bytes that were written. -/
def bytes (piece : Piece) : Bytes := piece.gap ++ piece.written

/-- The call with which the engine decided. -/
def call (piece : Piece) : Call := .inputEntry piece.record.name (some piece.decision)

/-- The record of the entry in the output. -/
def moved (piece : Piece) : DirectoryRecord :=
  piece.record.withLocalOffset (UInt32.ofNat piece.offset)

/-- The new record with its number, if the entry was kept. -/
def kept? (piece : Piece) : Option (DirectoryRecord × Nat) :=
  if piece.isKept then some (piece.moved, piece.number) else none

/-- What became of the entry. -/
def fate (config : Config) (piece : Piece) : Fate :=
  match piece.decision.disposition with
  | .keep =>
    .kept piece.moved piece.number
      (config.alignment.plan piece.found piece.offset ≠ .unchanged)
  | .replace => .replaced
  | .skip => .skipped

theorem kept?_fate (config : Config) (piece : Piece) :
    (piece.fate config).kept? = piece.kept? := by
  unfold fate kept? isKept
  cases piece.decision.disposition <;> rfl

/-- The entry was located in the input, and it was written as planned or not at all. -/
structure Sound (config : Config) (entries : View) (piece : Piece) : Prop where
  located : LocalRecord.locate entries piece.record entries.size = .ok piece.found
  inside : piece.record.localOffset.toNat + piece.layout.bytes.length ≤ entries.size
  has : entries.Has piece.record.localOffset.toNat piece.layout.bytes
  dropped : piece.isKept = false → piece.written = []
  kept : piece.isKept = true →
    ∃ new, Copied config entries piece.layout piece.offset new ∧ piece.written = new.bytes

end Piece

/-- Pieces that follow each other. Before them the input is covered up to `covered`, and the output
has `offset` bytes; after them the input is covered up to `covered'`. -/
inductive Laid (entries : View) : (covered offset : Nat) → List Piece → (covered' : Nat) → Prop
  | nil {covered offset : Nat} : Laid entries covered offset [] covered
  | cons {covered offset covered' : Nat} {piece : Piece} {rest : List Piece}
      (gap : piece.gap = entries.bytes covered (piece.found.start - covered))
      (place : piece.offset = offset + piece.gap.length)
      (laid : Laid entries (max covered piece.found.stop) (piece.offset + piece.written.length)
        rest covered') :
      Laid entries covered offset (piece :: rest) covered'

/-- The record of an entry begins after all that was written before it. -/
theorem Laid.place {entries : View} {covered offset covered' : Nat} {pieces : List Piece}
    (laid : Laid entries covered offset pieces covered') {front back : List Piece} {piece : Piece}
    (split : pieces = front ++ piece :: back) :
    piece.offset = offset + (front.flatMap Piece.bytes ++ piece.gap).length := by
  induction laid generalizing front with
  | nil => cases front <;> cases split
  | cons gap place laid ih =>
    cases front with
    | nil =>
      cases split
      exact place
    | cons first front =>
      cases split
      rw [ih rfl, place, List.flatMap_cons, Piece.bytes]
      simp only [List.length_append]
      omega

/-- The new records of the entries that have been kept so far, with their numbers. -/
def Sweep.keptSoFar (sweep : Sweep) : List (DirectoryRecord × Nat) :=
  sweep.fates.reverse.filterMap Fate.kept?

theorem Sweep.keptSoFar_of_fates {sweep : Sweep} {config : Config} {pieces : List Piece}
    (fates : sweep.fates = (pieces.map (Piece.fate config)).reverse) :
    sweep.keptSoFar = pieces.filterMap Piece.kept? := by
  rw [keptSoFar, fates, List.reverse_reverse, List.filterMap_map]
  congr 1
  funext piece
  exact piece.kept?_fate config

/-! ### One entry -/

open Run

variable {s s' : Session σ} {engine : Engine σ} {config : Config} {entries : View}

theorem fieldOffset_eq_ok_iff {offset : Nat} {word : UInt32} :
    fieldOffset offset = .ok word ↔ offset < UInt32.size ∧ word = UInt32.ofNat offset := by
  unfold fieldOffset
  split
  · next fits =>
    rw [Except.ok.injEq]
    exact ⟨fun h => ⟨fits, h.symm⟩, fun h => h.2.symm⟩
  · next large =>
    constructor
    · intro h; cases h
    · rintro ⟨fits, _⟩
      exact absurd fits large

theorem show?_extends {stage : Stage} {name : String} {data : Emit Unit} {sink : Option Sink}
    {u : Unit} (run : show? engine stage name data sink s = .ok u s') : Extends s s' [] [] := by
  unfold show? at run
  split at run
  · obtain ⟨-, rfl⟩ := run_pure_eq_ok_iff.1 run
    exact Extends.refl s
  · next sink =>
    cases shown : data.run sink with
    | error error _ =>
      rw [shown] at run
      exact absurd run run_throw_ne_ok
    | ok _ sink' =>
      rw [shown] at run
      exact ask_extends run

theorem showData?_extends {stage : Stage} {found : LocalRecord} {sink : Option Sink} {u : Unit}
    (run : showData? engine stage entries found sink s = .ok u s') : Extends s s' [] [] := by
  unfold showData? at run
  split at run
  · obtain ⟨_, mid, noted, run⟩ := run_bind_eq_ok_iff.1 run
    exact (note_extends noted).trans (show?_extends run)
  · exact show?_extends run

/-- What lies between two places of the input is copied if there is something. -/
theorem copyGap_eq_ok {covered gap : Nat} {notice : Notice} {next : Run σ α} {a : α}
    (run : (if 0 < gap then do
        note notice
        emit (entries.feed covered gap)
        next
      else next) s = .ok a s') :
    ∃ mid, Extends s mid (entries.bytes covered gap) [] ∧ next mid = .ok a s' := by
  split at run
  · obtain ⟨_, noted, note, run⟩ := run_bind_eq_ok_iff.1 run
    obtain ⟨_, mid, fed, run⟩ := run_bind_eq_ok_iff.1 run
    have wrote := emit_extends (entries.emits_feed _ _) fed
    exact ⟨mid, (note_extends note).after_silence wrote, run⟩
  · next none =>
    rw [Nat.eq_zero_of_not_pos none]
    exact ⟨s, Extends.refl s, run⟩

theorem copyEntry_eq_ok {record : DirectoryRecord} {number offset count : Nat} {fate : Fate}
    {old : Layout record} (has : entries.Has record.localOffset.toNat old.bytes)
    (run : copyEntry config entries record number old.found offset s = .ok (fate, count) s') :
    ∃ new : Layout record, Copied config entries old offset new ∧
      Extends s s' new.bytes [] ∧ count = new.bytes.length ∧
        fate = .kept (record.withLocalOffset (UInt32.ofNat offset)) number
          (config.alignment.plan old.found offset ≠ .unchanged) := by
  unfold copyEntry at run
  obtain ⟨word, field, run⟩ := run_ofExcept_eq_ok_iff.1 run
  obtain ⟨offsetFits, rfl⟩ := fieldOffset_eq_ok_iff.1 field
  dsimp only at run
  cases plan : config.alignment.plan old.found offset with
  | unchanged =>
    rw [plan] at run
    obtain ⟨written, copied, emitted, run⟩ := run_bind_eq_ok_iff.1 run
    obtain ⟨_, _, noted, run⟩ := run_bind_eq_ok_iff.1 run
    obtain ⟨same, rfl⟩ := run_pure_eq_ok_iff.1 run
    obtain ⟨rfl, rfl⟩ := Prod.mk.inj same
    obtain ⟨_, ran, extends_of⟩ := emit_eq_ok emitted
    obtain ⟨rfl, wrote⟩ := emits_copy _ _ ran
    -- The whole record was copied, so its data could be read.
    have room := old.dataStart_le
    refine ⟨old, ⟨offsetFits, ?_, ?_⟩, ?_, rfl, rfl⟩
    · refine (holds_of_copy ran).mono (Nat.le_add_right ..) ?_
      rw [Nat.add_assoc]
      exact Nat.add_le_add_left room _
    · rw [plan]
      exact ⟨old.extra_fits, (old.withExtra_eq_self rfl old.extra_fits).symm⟩
    · rw [← has]
      exact (extends_of _ wrote).before_silence (note_extends noted)
  | realign alignment extra =>
    rw [plan] at run
    obtain ⟨_, announced, aligning, run⟩ := run_bind_eq_ok_iff.1 run
    obtain ⟨written, copied, emitted, run⟩ := run_bind_eq_ok_iff.1 run
    obtain ⟨_, _, noted, run⟩ := run_bind_eq_ok_iff.1 run
    obtain ⟨same, rfl⟩ := run_pure_eq_ok_iff.1 run
    obtain ⟨rfl, rfl⟩ := Prod.mk.inj same
    obtain ⟨_, ran, extends_of⟩ := emit_eq_ok emitted
    obtain ⟨fits, wrote, rfl, held⟩ := copyWithExtra_eq_ok old has ran
    have copied := ((note_extends aligning).after_silence (extends_of _ wrote)).before_silence
      (note_extends noted)
    exact ⟨old.withExtra extra fits, ⟨offsetFits, held, by rw [plan]; exact ⟨fits, rfl⟩⟩, copied,
      rfl, rfl⟩

/-- An entry is settled at the count of the output, and what is written of it is counted. -/
theorem settleEntry_eq_ok {record : DirectoryRecord} {number offset count : Nat} {fate : Fate}
    {old : Layout record}
    (located : LocalRecord.locate entries record entries.size = .ok old.found)
    (inside : record.localOffset.toNat + old.bytes.length ≤ entries.size)
    (has : entries.Has record.localOffset.toNat old.bytes) (gap : Bytes)
    (run : settleEntry engine config entries record number old.found offset s =
      .ok (fate, count) s') :
    ∃ decision written,
      let piece : Piece := ⟨record, number, old, decision, gap, offset, written⟩
      piece.Sound config entries ∧ fate = piece.fate config ∧ count = written.length ∧
        Extends s s' written [piece.call] := by
  unfold settleEntry at run
  obtain ⟨decision, asked, ask, run⟩ := run_bind_eq_ok_iff.1 run
  have decided := ask_extends ask
  obtain ⟨_, remarked, remark, run⟩ := run_bind_eq_ok_iff.1 run
  obtain ⟨_, shown, shows, run⟩ := run_bind_eq_ok_iff.1 run
  have before : Extends s shown [] [.inputEntry record.name (some decision)] :=
    (decided.before_silence (note?_extends remark)).before_silence (showData?_extends shows)
  -- The two ways to drop an entry differ in the notice and in the fate only.
  have dropped {notice : Notice} {end_ : Fate} (drops : decision.disposition ≠ .keep)
      (gone : ∀ written, end_ =
        Piece.fate config ⟨record, number, old, decision, gap, offset, written⟩)
      (run : (do note notice; pure (end_, 0)) shown = .ok (fate, count) s') :
      ∃ decision written,
        let piece : Piece := ⟨record, number, old, decision, gap, offset, written⟩
        piece.Sound config entries ∧ fate = piece.fate config ∧ count = written.length ∧
          Extends s s' written [piece.call] := by
    obtain ⟨_, _, noted, run⟩ := run_bind_eq_ok_iff.1 run
    obtain ⟨same, rfl⟩ := run_pure_eq_ok_iff.1 run
    obtain ⟨rfl, rfl⟩ := Prod.mk.inj same
    have isKept : decide (decision.disposition = .keep) = false := decide_eq_false drops
    refine ⟨decision, [], ⟨located, inside, has, fun _ => rfl, ?_⟩, gone [], rfl,
      before.before_silence (note_extends noted)⟩
    intro kept
    exact absurd (isKept.symm.trans kept) (by decide)
  cases disposition : decision.disposition with
  | keep =>
    rw [disposition] at run
    obtain ⟨sink, opened, outputEntry, run⟩ := run_bind_eq_ok_iff.1 run
    obtain ⟨_, ready, shows, run⟩ := run_bind_eq_ok_iff.1 run
    have before := (before.before_silence (ask_extends outputEntry)).before_silence
      (showData?_extends shows)
    obtain ⟨new, copied, wrote, counted, kept⟩ := copyEntry_eq_ok has run
    have isKept : decide (decision.disposition = .keep) = true := decide_eq_true disposition
    refine ⟨decision, new.bytes, ⟨located, inside, has, ?_, fun _ => ⟨new, copied, rfl⟩⟩, ?_,
      counted, before.trans wrote⟩
    · intro dropped
      exact absurd (isKept.symm.trans dropped) (by decide)
    · rw [kept, Piece.fate, disposition]
      rfl
  | replace =>
    rw [disposition] at run
    exact dropped (by rw [disposition]; decide) (fun _ => by rw [Piece.fate, disposition]) run
  | skip =>
    rw [disposition] at run
    exact dropped (by rw [disposition]; decide) (fun _ => by rw [Piece.fate, disposition]) run

theorem sweepEntry_eq_ok {sweep sweep' : Sweep} {entry : DirectoryRecord × Nat}
    (run : sweepEntry engine config entries sweep entry s = .ok sweep' s') :
    ∃ piece : Piece, (piece.record, piece.number) = entry ∧ piece.Sound config entries ∧
      piece.gap = entries.bytes sweep.covered (piece.found.start - sweep.covered) ∧
      piece.offset = sweep.offset + piece.gap.length ∧
      Extends s s' piece.bytes [piece.call] ∧
      sweep'.covered = max sweep.covered piece.found.stop ∧
      sweep'.offset = piece.offset + piece.written.length ∧
      sweep'.fates = piece.fate config :: sweep.fates := by
  obtain ⟨record, number⟩ := entry
  unfold sweepEntry at run
  obtain ⟨found, mapped, run⟩ := run_ofExcept_eq_ok_iff.1 run
  have located := mapError_eq_ok_iff.1 mapped
  obtain ⟨layout, rfl, inside, has⟩ := LocalRecord.locate_sound located
  obtain ⟨copied, gap, run⟩ := copyGap_eq_ok run
  obtain ⟨⟨fate, count⟩, settled, settle, run⟩ := run_bind_eq_ok_iff.1 run
  obtain ⟨rfl, rfl⟩ := run_pure_eq_ok_iff.1 run
  obtain ⟨decision, written, sound, became, counted, wrote⟩ :=
    settleEntry_eq_ok located inside has
      (entries.bytes sweep.covered (layout.found.start - sweep.covered)) settle
  refine ⟨_, rfl, sound, rfl, ?_, gap.trans wrote, rfl, congrArg (_ + ·) counted,
    congrArg (· :: _) became⟩
  rw [View.length_bytes]

/-- The count of a sweep grows by what is written for an entry. So it stays the position of the
output. -/
theorem sweepEntry_counts {sweep sweep' : Sweep} {entry : DirectoryRecord × Nat}
    (counts : sweep.offset = s.output.position)
    (run : sweepEntry engine config entries sweep entry s = .ok sweep' s') :
    sweep'.offset = s'.output.position := by
  obtain ⟨piece, -, -, -, place, wrote, -, count, -⟩ := sweepEntry_eq_ok run
  rw [Sink.position_eq] at counts ⊢
  rw [wrote.length_output, count, place, counts, Piece.bytes, List.length_append, Nat.add_assoc]

/-! ### All entries -/

/-- The induction is on the entries that are left; the state and the sweep change with each one. -/
theorem foldlM_sweepEntry_eq_ok {todo : List (DirectoryRecord × Nat)} {sweep sweep' : Sweep}
    (run : todo.foldlM (sweepEntry engine config entries) sweep s = .ok sweep' s') :
    ∃ pieces : List Piece, pieces.map (fun piece => (piece.record, piece.number)) = todo ∧
      (∀ piece ∈ pieces, piece.Sound config entries) ∧
      Laid entries sweep.covered sweep.offset pieces sweep'.covered ∧
      Extends s s' (pieces.flatMap Piece.bytes) (pieces.map Piece.call) ∧
      sweep'.offset = sweep.offset + (pieces.flatMap Piece.bytes).length ∧
      sweep'.fates = (pieces.map (Piece.fate config)).reverse ++ sweep.fates := by
  induction todo generalizing s sweep with
  | nil =>
    obtain ⟨rfl, rfl⟩ := run_pure_eq_ok_iff.1 run
    exact ⟨[], rfl, fun _ => nofun, .nil, Extends.refl s, rfl, rfl⟩
  | cons entry rest ih =>
    rw [List.foldlM_cons] at run
    obtain ⟨next, mid, step, steps⟩ := run_bind_eq_ok_iff.1 run
    obtain ⟨piece, rfl, sound, gap, place, wrote, covered, count, fate⟩ := sweepEntry_eq_ok step
    obtain ⟨pieces, rfl, sounds, laid, wrotes, counts, fates⟩ := ih steps
    -- The next piece begins where this one ends, in the input and in the output.
    rw [covered, count] at laid
    refine ⟨piece :: pieces, rfl, ?_, .cons gap place laid, ?_, ?_, ?_⟩
    · intro other mem
      rcases List.mem_cons.1 mem with rfl | later
      · exact sound
      · exact sounds other later
    · rw [List.flatMap_cons, List.map_cons]
      exact wrote.trans wrotes
    · rw [counts, count, place, List.flatMap_cons, Piece.bytes]
      simp only [List.length_append]
      omega
    · rw [fates, fate, List.map_cons, List.reverse_cons, List.append_assoc, List.singleton_append]

/-- A sweep makes pieces and copies the tail. It counts from zero, wherever the output begins. -/
theorem sweepEntries_eq_ok {records : List DirectoryRecord} {sweep : Sweep}
    (run : sweepEntries engine config entries records s = .ok sweep s') :
    ∃ (pieces : List Piece) (covered : Nat),
      pieces.map (fun piece => (piece.record, piece.number)) = Directory.inFileOrder records ∧
      (∀ piece ∈ pieces, piece.Sound config entries) ∧
      Laid entries 0 0 pieces covered ∧
      Extends s s'
        (pieces.flatMap Piece.bytes ++ entries.bytes covered (entries.size - covered))
        (pieces.map Piece.call) ∧
      sweep.offset =
        (pieces.flatMap Piece.bytes ++ entries.bytes covered (entries.size - covered)).length ∧
      sweep.fates = (pieces.map (Piece.fate config)).reverse := by
  unfold sweepEntries at run
  obtain ⟨last, swept, sweeps, run⟩ := run_bind_eq_ok_iff.1 run
  obtain ⟨copied, tail, run⟩ := copyGap_eq_ok run
  obtain ⟨rfl, rfl⟩ := run_pure_eq_ok_iff.1 run
  obtain ⟨pieces, order, sound, laid, wrote, counts, fates⟩ := foldlM_sweepEntry_eq_ok sweeps
  refine ⟨pieces, last.covered, order, sound, laid, ?_, ?_, fates.trans (List.append_nil _)⟩
  · have all := wrote.trans tail
    rwa [List.append_nil] at all
  · rw [List.length_append, View.length_bytes]
    exact congrArg (· + _) (counts.trans (Nat.zero_add _))

/-- After a sweep over an empty output the count is the position of the output. -/
theorem sweepEntries_counts {records : List DirectoryRecord} {sweep : Sweep}
    (empty : s.output.position = 0)
    (run : sweepEntries engine config entries records s = .ok sweep s') :
    sweep.offset = s'.output.position := by
  unfold sweepEntries at run
  obtain ⟨last, swept, sweeps, run⟩ := run_bind_eq_ok_iff.1 run
  have counts : last.offset = swept.output.position :=
    run_foldlM_keeps sweepEntry_counts empty.symm sweeps
  obtain ⟨copied, tail, run⟩ := copyGap_eq_ok run
  obtain ⟨rfl, rfl⟩ := run_pure_eq_ok_iff.1 run
  rw [Sink.position_eq] at counts ⊢
  rw [tail.length_output, View.length_bytes, counts]

/-! ### Back to the order of the directory -/

theorem map_filterMap_kept? (pieces : List Piece) :
    (pieces.filterMap Piece.kept?).map (·.1) = (pieces.filter Piece.isKept).map Piece.moved := by
  induction pieces with
  | nil => rfl
  | cons piece rest ih =>
    rw [List.filterMap_cons, List.filter_cons, Piece.kept?]
    cases piece.isKept with
    | true => exact congrArg (piece.moved :: ·) ih
    | false => exact ih

/-- The pieces in the order of the directory make up the directory, and those that were kept make
up the new one. -/
theorem exists_directory_order {records : List DirectoryRecord} {pieces : List Piece}
    (order : pieces.map (fun piece => (piece.record, piece.number)) =
      Directory.inFileOrder records) :
    ∃ listed : List Piece, listed.Perm pieces ∧ listed.map Piece.record = records ∧
      ∀ sweep : Sweep, sweep.keptSoFar = pieces.filterMap Piece.kept? →
        sweep.records = (listed.filter Piece.isKept).map Piece.moved := by
  -- The numbers are all different, so sorting what was kept is keeping what was sorted.
  let listed := pieces.mergeSort fun a b => a.number ≤ b.number
  have perm : listed.Perm pieces := List.mergeSort_perm ..
  have numbered : listed.map (fun piece => (piece.record, piece.number)) = records.zipIdx := by
    rw [← Directory.mergeSort_inFileOrder, ← order]
    exact List.map_mergeSort fun _ _ _ _ => rfl
  have increasing : listed.Pairwise fun a b => a.number < b.number := by
    have pairs := Directory.pairwise_zipIdx records
    rwa [← numbered, List.pairwise_map] at pairs
  have keptIncreasing : (listed.filterMap Piece.kept?).Pairwise fun a b => a.2 < b.2 := by
    refine increasing.filterMap _ ?_
    intro a b less x first y second
    unfold Piece.kept? at first second
    split at first <;> cases first
    split at second <;> cases second
    exact less
  refine ⟨listed, perm, ?_, ?_⟩
  · rw [← List.zipIdx_map_fst 0 records, ← numbered, List.map_map]
    rfl
  · intro sweep kept
    show (sweep.keptSoFar.mergeSort fun a b => a.2 ≤ b.2).map (·.1) = _
    rw [kept, mergeSort_eq_of_increasing (perm.symm.filterMap _) keptIncreasing]
    exact map_filterMap_kept? listed

end ApkArchive.Signing

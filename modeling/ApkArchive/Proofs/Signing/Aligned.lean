import ApkArchive.Proofs.Alignment.Check
import ApkArchive.Proofs.Signing.Entries

/-!
# The output is aligned

Where the data of an entry lands depends on everything that is written before it. Its extra field is
planned for the place where it lands, so the data begins at its boundary there, whatever the
boundary and whatever was in the extra field. A check of the output finds nothing to complain about.
-/

namespace ApkArchive.Signing

open LocalRecord (Layout Placed)
open ApkArchive.Alignment (Policy Placement)

/-- How the data of an entry lies in the output, given how it lay in the input: at its boundary,
unless it was not there before and is to be left alone; then the local record is a plain copy. -/
structure WellPlaced (policy : Policy) (entries output : View) (old new : LocalRecord) : Prop where
  aligned : 1 < policy.boundary old →
    policy.preserve = false ∨ (old.start + old.dataStart) % policy.boundary old = 0 →
      (new.start + new.dataStart) % policy.boundary old = 0
  unchanged : 1 < policy.boundary old → policy.preserve = true →
    (old.start + old.dataStart) % policy.boundary old ≠ 0 →
      new.size = old.size ∧ output.bytes new.start new.size = entries.bytes old.start old.size

theorem wellPlaced_of_copied {config : Config} {entries output : View} {record : DirectoryRecord}
    {old new : Layout record} {offset : Nat} (copied : Copied config entries old offset new)
    (has : entries.Has record.localOffset.toNat old.bytes)
    (placed : Placed output (record.withLocalOffset (UInt32.ofNat offset))
      (new.move (UInt32.ofNat offset))) :
    WellPlaced config.alignment entries output old.found
      (new.move (UInt32.ofNat offset)).found := by
  obtain ⟨fits, planned⟩ := copied.planned
  have start : (new.move (UInt32.ofNat offset)).found.start = offset :=
    UInt32.toNat_ofNat_of_lt' copied.offsetFits
  have dataStart : (new.move (UInt32.ofNat offset)).found.dataStart =
      (config.alignment.plan old.found offset).dataStart old.found := by
    rw [Alignment.Plan.dataStart_eq, planned]
    rfl
  constructor
  · intro many free
    rw [start, dataStart]
    exact Policy.plan_aligned many free
  · intro _ preserved unaligned
    have same : new = old := by
      rw [planned]
      refine old.withExtra_eq_self ?_ fits
      rw [Policy.plan_unchanged preserved unaligned]
      rfl
    have read : entries.bytes record.localOffset.toNat old.bytes.length = old.bytes := has
    have written : output.bytes (new.move (UInt32.ofNat offset)).found.start new.bytes.length =
      new.bytes := placed.has
    rw [same] at written
    show new.bytes.length = old.bytes.length ∧
      output.bytes (new.move (UInt32.ofNat offset)).found.start new.bytes.length =
        entries.bytes record.localOffset.toNat old.bytes.length
    rw [same, written, read]
    exact ⟨rfl, rfl⟩

/-- A placement is aligned if its data begins at the boundary of its record. -/
theorem isAligned_of_boundary {policy : Policy} {found : LocalRecord} {name : String}
    {dataOffset : Nat} {compressed : Bool}
    (aligned : 1 < policy.boundary found → dataOffset % policy.boundary found = 0) :
    Placement.isAligned {
      name, dataOffset, compressed
      alignment := policy.alignmentFor found.name found.isCompressed } = true := by
  refine decide_eq_true ?_
  show dataOffset % policy.boundary found = 0
  rcases Nat.lt_or_ge 1 (policy.boundary found) with many | one
  · exact aligned many
  · have := policy.boundary_pos found
    rw [Nat.le_antisymm one this, Nat.mod_one]

theorem kept_data_is_aligned {engine : Engine σ} {config : Config} {input : View}
    {deflate : Bytes → Bytes} {start : σ} {sink : Sink} {summary : Summary} {final : Session σ}
    (run : (sign engine config input deflate).run { engine := start, output := sink } =
      .ok summary final) :
    ∃ sections records entries directory endRecord,
      input.IsArchive sections records entries ∧ final.EndsIn directory endRecord ∧
      ∀ output : View, output.Shows final.output.bytes →
        (∀ record ∈ records, (record.name, Disposition.keep) ∈ final.decisions →
          ∃ offset old new, record.withLocalOffset offset ∈ directory ∧
            LocalRecord.locate entries record entries.size = .ok old ∧
            LocalRecord.locate output (record.withLocalOffset offset) output.size = .ok new ∧
            WellPlaced config.alignment entries output old new) ∧
        (config.alignment.preserve = false →
          EndRecord.find output =
            .ok (some (endRecord, output.size - endRecord.encode.length)) →
          ∀ placements, Alignment.check output config.alignment.default = .ok placements →
            ∀ placement ∈ placements, placement.isAligned = true) := by
  obtain ⟨outcome, described⟩ := sign_eq_ok run
  refine ⟨outcome.sections, outcome.records, outcome.entries, outcome.directory, outcome.endRecord,
    outcome.archive, described.endsIn, ?_⟩
  intro output shows
  rw [described.output] at shows
  refine ⟨?_, ?_⟩
  · intro record mem kept
    obtain ⟨piece, mem', rfl⟩ := outcome.exists_piece mem
    have isKept := (described.isKept_iff mem').2 kept
    obtain ⟨new, copied, placed⟩ := outcome.placed_moved shows mem' isKept
    have sound := outcome.sound piece mem'
    exact ⟨_, _, _, outcome.moved_mem mem' isKept, sound.located, placed.located,
      wellPlaced_of_copied copied sound.has placed⟩
  · intro moves search placements checked placement mem
    obtain ⟨sections, records, entries, archive, placed⟩ := Alignment.check_eq_ok checked
    obtain ⟨search', -⟩ := Sections.locate_eq_ok_iff.1 archive.located
    rw [search, Except.ok.injEq, Option.some.injEq, Prod.mk.injEq] at search'
    obtain ⟨record, mem', place⟩ := placed placement mem
    obtain ⟨found, located, rfl⟩ := Alignment.placementOf_eq_ok place
    have located := LocalRecord.locate_of_slice shows archive.sliced located
    rw [described.records_eq shows archive search'.1.symm, outcome.mem_directory_iff] at mem'
    -- What the check has located is the layout that was written there.
    apply isAligned_of_boundary
    rcases mem' with ⟨piece, mem', isKept, rfl⟩ | ⟨addition, mem', rfl⟩
    · obtain ⟨new, copied, standing⟩ := outcome.placed_moved shows mem' isKept
      have same := Except.ok.inj (located.symm.trans standing.located)
      have sound := outcome.sound piece mem'
      intro many
      rw [same] at many ⊢
      exact (wellPlaced_of_copied copied sound.has standing).aligned many (.inl moves)
    -- New entries are deflated, so they have no boundary.
    · have same := Except.ok.inj (located.symm.trans (outcome.placed_addition shows mem').located)
      obtain ⟨_, sound⟩ := outcome.appended.exists_sound mem'
      have compressed : found.isCompressed = true := by
        rw [same]
        show decide (addition.record.method ≠ .stored) = true
        rw [sound.method]
        rfl
      intro many
      rw [Policy.boundary_of_isCompressed _ compressed] at many
      exact absurd many (by decide)

/-- The entry of the sample is moved to its boundary, and the check of the output says so. -/
theorem sample_data_is_aligned :
    ∃ summary final, Sample.run { Sample.script with additions := none } = .ok summary final ∧
      ∃ sections records entries, ∃ directory : List DirectoryRecord, ∃ placements,
        Sample.input.IsArchive sections records entries ∧
        (∀ record ∈ records, (record.name, Disposition.keep) ∈ final.decisions →
          ∃ offset old new, record.withLocalOffset offset ∈ directory ∧
            LocalRecord.locate entries record entries.size = .ok old ∧
            LocalRecord.locate (View.ofBytes final.output.bytes) (record.withLocalOffset offset)
              (View.ofBytes final.output.bytes).size = .ok new ∧
            WellPlaced {} entries (View.ofBytes final.output.bytes) old new) ∧
        Alignment.check (View.ofBytes final.output.bytes) 4 = .ok placements ∧
        placements.length = 1 ∧ ∀ placement ∈ placements, placement.isAligned = true := by
  have succeeds : Sample.succeeds { Sample.script with additions := none } (fun final =>
      (Alignment.check (View.ofBytes final.output.bytes) 4).toOption.map List.length = some 1 ∧
      ∀ round ∈ final.rounds.getLast?, ∀ answer ∈ round.2,
        (round.1.endRecordWith answer).comment = [] ∧
        (round.1.endRecordWith answer).isConsistent = true) = true := by decide +kernel
  obtain ⟨summary, final, result, answered⟩ := Sample.exists_of_succeeds succeeds
  obtain ⟨checked, consistent⟩ := of_decide_eq_true answered
  obtain ⟨sections, records, entries, directory, endRecord, archive, ends, output⟩ :=
    kept_data_is_aligned result
  obtain ⟨shown, answer, last, rfl⟩ := ends.shown
  obtain ⟨plain, consistent⟩ := consistent (shown, some answer) last answer rfl
  have search := ends.find_of_no_comment (View.shows_ofBytes _) plain consistent
  cases check : Alignment.check (View.ofBytes final.output.bytes) 4 with
  | error => rw [check] at checked; cases checked
  | ok placements =>
    rw [check] at checked
    obtain ⟨kept, aligned⟩ := output _ (View.shows_ofBytes _)
    exact ⟨summary, final, result, sections, records, entries, directory, placements, archive, kept,
      check, Option.some.inj checked, aligned rfl search placements check⟩

end ApkArchive.Signing

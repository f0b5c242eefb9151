import ApkArchive.Proofs.Alignment.Check
import ApkArchive.Proofs.Signing.Idempotent
import ApkArchive.Proofs.Signing.InPlace
import ApkArchive.Proofs.Signing.Padding

/-!
# Check and run agree

A check looks at the places where the data of the entries begins in the input, a run at the places
where it lands in the output. If no two local records share a byte, they agree all the same: a run
that signs nothing aligns no entry anew exactly if the check finds every entry aligned, and then the
archive passes through untouched, but for a signing block.

    entries, signing block, directory, end record ──▶ entries, directory, end record
-/

namespace ApkArchive

open ApkArchive.Alignment (check Placement)

/-- A record that describes the directory as before is the same record. -/
theorem EndRecord.withDirectory_self {record : EndRecord}
    (counts : record.diskEntries = record.totalEntries) :
    record.withDirectory record.totalEntries record.directorySize record.directoryOffset =
      record := by
  cases record
  cases counts
  rfl

/-- The local records of an archive share no byte. -/
def View.NoOverlap (input : View) : Prop :=
  ∀ sections records entries, input.IsArchive sections records entries →
    records.Pairwise (Signing.Apart entries)

namespace View.IsArchive

variable {input : View} {sections : Sections} {records : List DirectoryRecord} {entries : View}

theorem length_records (archive : input.IsArchive sections records entries) :
    records.length = sections.recordCount := by
  obtain ⟨directory, read, parsed⟩ := archive.parsed
  exact (Directory.parse_eq_ok_iff.1 parsed).2.1

theorem totalEntries_eq (archive : input.IsArchive sections records entries) :
    sections.endRecord.totalEntries = UInt16.ofNat records.length := by
  obtain ⟨-, -, -, -, count, -, -⟩ := Sections.locate_eq_ok_iff.1 archive.located
  rw [archive.length_records, count, UInt16.ofNat_toNat]

theorem directorySize_eq (archive : input.IsArchive sections records entries) :
    sections.endRecord.directorySize = UInt32.ofNat (Directory.size records) := by
  obtain ⟨-, -, -, size, -, -, -⟩ := Sections.locate_eq_ok_iff.1 archive.located
  rw [Directory.size_eq, ← archive.size_directory, size, UInt32.ofNat_toNat]

/-- The archive without its signing block. -/
def unsigned (sections : Sections) (records : List DirectoryRecord) (entries : View) : Bytes :=
  entries.bytes 0 entries.size ++ (Directory.encode records ++
    (sections.endRecord.withDirectory (UInt16.ofNat records.length)
      sections.endRecord.directorySize (UInt32.ofNat entries.size)).encode)

/-- An archive that has no signing block, and counts its entries twice alike, is the same without
it. -/
theorem unsigned_eq (archive : input.IsArchive sections records entries)
    (none : sections.signingBlock? = none)
    (counts : sections.endRecord.diskEntries = sections.endRecord.totalEntries) :
    unsigned sections records entries = input.bytes 0 input.size := by
  obtain ⟨-, -, offset, -, -, -, -⟩ := Sections.locate_eq_ok_iff.1 archive.located
  have start : entries.size = sections.endRecord.directoryOffset.toNat := by
    rw [archive.size_entries, Sections.entriesSize, none, ← offset]
  have same : sections.endRecord.withDirectory (UInt16.ofNat records.length)
      sections.endRecord.directorySize (UInt32.ofNat entries.size) = sections.endRecord := by
    rw [← archive.totalEntries_eq, start, UInt32.ofNat_toNat, EndRecord.withDirectory_self counts]
  rw [archive.bytes_eq, between_of_no_block none, List.nil_append, unsigned, same]

end View.IsArchive

namespace Signing

/-- The check finds an entry aligned if the entry may stay as it is where it stands. -/
theorem stays_iff_isAligned {a : UInt16} {records : List DirectoryRecord} {entries : View}
    {placements : List Placement}
    (placed : ((Directory.inFileOrder records).mapM fun (record, _) =>
      Alignment.placementOf { default := a } entries record) = .ok placements) :
    (∀ record ∈ records, ∀ found, LocalRecord.locate entries record entries.size = .ok found →
      Alignment.Policy.plan { default := a } found found.start = .unchanged) ↔
    ∀ placement ∈ placements, placement.isAligned = true := by
  have stays {found : LocalRecord} :
      Alignment.Policy.plan { default := a } found found.start = .unchanged ↔
        (found.start + found.dataStart) % Alignment.Policy.boundary { default := a } found = 0 := by
    rw [Alignment.Policy.plan_start_eq_unchanged_iff]
    exact ⟨fun h => h.resolve_left Bool.false_ne_true, .inr⟩
  constructor
  · intro unchanged placement mem
    obtain ⟨⟨record, number⟩, mem', place⟩ := exists_of_mem_mapM placed mem
    obtain ⟨found, located, -⟩ := Alignment.placementOf_eq_ok place
    rw [Placement.isAligned_iff place located, ← stays]
    exact unchanged record (Directory.mem_iff_exists_mem_inFileOrder.2 ⟨number, mem'⟩) found located
  · intro aligned record mem found located
    obtain ⟨number, listed⟩ := Directory.mem_iff_exists_mem_inFileOrder.1 mem
    obtain ⟨placement, mem', place⟩ := exists_result_of_mapM placed listed
    rw [stays, ← Placement.isAligned_iff place located]
    exact aligned placement mem'

/-- Every record of a checked archive was located. -/
theorem exists_located_of_placed {a : UInt16} {records : List DirectoryRecord} {entries : View}
    {placements : List Placement}
    (placed : ((Directory.inFileOrder records).mapM fun (record, _) =>
      Alignment.placementOf { default := a } entries record) = .ok placements)
    {record : DirectoryRecord} (mem : record ∈ records) :
    ∃ found, LocalRecord.locate entries record entries.size = .ok found := by
  obtain ⟨number, listed⟩ := Directory.mem_iff_exists_mem_inFileOrder.1 mem
  obtain ⟨placement, -, place⟩ := exists_result_of_mapM placed listed
  obtain ⟨found, located, -⟩ := Alignment.placementOf_eq_ok place
  exact ⟨found, located⟩

/-- If alignment is off, everything is aligned. -/
theorem isAligned_of_check_zero {input : View} {placements : List Placement}
    (checked : check input 0 = .ok placements) :
    ∀ placement ∈ placements, placement.isAligned = true := by
  obtain ⟨sections, records, entries, archive, placed⟩ := Alignment.check_eq_ok checked
  intro placement mem
  obtain ⟨record, -, place⟩ := placed placement mem
  obtain ⟨found, located, -⟩ := Alignment.placementOf_eq_ok place
  have one : Alignment.Policy.boundary { default := 0 } found = 1 := by
    rw [Alignment.Policy.boundary, Alignment.Policy.alignmentFor, if_pos (by simp)]
    rfl
  rw [Placement.isAligned_iff place located, one, Nat.mod_one]

namespace PassThrough

section Checked

variable {a : UInt16} {input : View} {sections : Sections} {records : List DirectoryRecord}
variable {entries : View} {deflate : Bytes → Bytes} {start : Bool} {sink : Sink}
variable {summary : Summary} {final : Session Bool}

/-- The outcome of a run that signs nothing: everything is kept. -/
theorem exists_outcome
    (run : (sign (engine false) { alignment := { default := a } } input deflate).run
      { engine := start, output := sink } = .ok summary final)
    (archive : input.IsArchive sections records entries) :
    ∃ outcome : Outcome { alignment := { default := a } } input deflate,
      outcome.Describes final ∧ summary = outcome.summary ∧ outcome.SignsNothing (keeps false) ∧
      outcome.KeepsAll ∧ outcome.sections = sections ∧ outcome.records = records ∧
      outcome.entries = entries := by
  obtain ⟨outcome, described, -, same⟩ := sign_describes run
  have nothing := signsNothing described (answersAll_of_sign run)
  exact ⟨outcome, described, same, nothing, fun piece mem => nothing.kept piece mem,
    outcome.archive.unique archive⟩

/-- The output of a run that signs nothing, if every entry may stay where it stands. -/
theorem output_of_inOrder
    (run : (sign (engine false) { alignment := { default := a } } input deflate).run
      { engine := start, output := sink } = .ok summary final)
    (archive : input.IsArchive sections records entries)
    (inOrder : InOrder { default := a } entries records) :
    final.output.bytes = View.IsArchive.unsigned sections records entries := by
  obtain ⟨outcome, described, -, nothing, keeps, rfl, rfl, rfl⟩ := exists_outcome run archive
  obtain ⟨body, directory⟩ := outcome.body_of_inOrder keeps nothing.additions inOrder
  have size : outcome.body.length = outcome.entries.size := by rw [body, View.length_bytes]
  have endRecord := endRecord_of_describes (by exact Nat.le_refl 1) run described
  rw [nothing.request_size, Nat.add_zero, size, directory, ← archive.directorySize_eq] at endRecord
  rw [described.output, nothing.bytes_eq, body, directory, endRecord, View.IsArchive.unsigned]

end Checked

/-- An archive in order can be rewritten. -/
theorem exists_run_of_inOrder {a : UInt16} {input : View} {sections : Sections}
    {records : List DirectoryRecord} {entries : View}
    (archive : input.IsArchive sections records entries)
    (inOrder : InOrder { default := a } entries records) (deflate : Bytes → Bytes) (start : Bool)
    {sink : Sink} (isOpen : sink.Open) (empty : sink.bytes = []) :
    ∃ summary final,
      (sign (engine false) { alignment := { default := a } } input deflate).run
        { engine := start, output := sink } = .ok summary final := by
  obtain ⟨-, -, offset, -, -, -, -⟩ := Sections.locate_eq_ok_iff.1 archive.located
  have before := Sections.entriesSize_le archive.located
  have small : sections.endRecord.directoryOffset.toNat < UInt32.size := UInt32.toNat_lt _
  have offsetFits : (entries.bytes 0 entries.size).length + (BlockRequest.orEmpty none).size <
      UInt32.size := by
    have size : (BlockRequest.orEmpty none).size = 0 := rfl
    rw [View.length_bytes, archive.size_entries, size]
    omega
  let config : Config := { alignment := { default := a } }
  have any (size : Nat) : size % max 1 (config.sizeMultiple.getD 1) = 0 := Nat.mod_one size
  obtain ⟨summary, completes, -⟩ := completes_sign_of_no_additions (steady false) deflate archive
    archive.shows_entries inOrder (fun _ _ => rfl) offsetFits (any _)
  obtain ⟨final, run, -, -⟩ := @completes { engine := start, output := sink } isOpen empty
  exact ⟨summary, final, run⟩

/-- On an archive that can be checked and whose local records share no byte, a run that signs
nothing agrees with the check: it aligns no entry anew exactly if the check finds every entry
aligned, and then the archive passes through, but for its signing block. -/
theorem checked_archive_passes (a : UInt16) {input : View} {placements : List Placement}
    (checked : check input a = .ok placements) (apart : input.NoOverlap) :
    let config : Config := { alignment := { default := a } }
    (∀ deflate start sink summary final,
      (sign (engine false) config input deflate).run { engine := start, output := sink } =
        .ok summary final →
      (summary.realigned = 0 ↔ ∀ placement ∈ placements, placement.isAligned = true)) ∧
    (a = 0 → ∀ placement ∈ placements, placement.isAligned = true) ∧
    ((∀ placement ∈ placements, placement.isAligned = true) →
      ∃ sections records entries, input.IsArchive sections records entries ∧
        (∀ deflate start sink, sink.Open → sink.bytes = [] → ∃ summary final,
          (sign (engine false) config input deflate).run { engine := start, output := sink } =
            .ok summary final) ∧
        (∀ deflate start sink summary final,
          (sign (engine false) config input deflate).run { engine := start, output := sink } =
            .ok summary final →
          final.output.bytes = entries.bytes 0 entries.size ++
            (input.bytes sections.directoryOffset sections.directorySize ++
              (sections.endRecord.withDirectory (UInt16.ofNat records.length)
                sections.endRecord.directorySize (UInt32.ofNat entries.size)).encode) ∧
          (sections.signingBlock? = none →
            sections.endRecord.diskEntries = sections.endRecord.totalEntries →
            final.output.bytes = input.bytes 0 input.size))) := by
  intro config
  obtain ⟨sections, records, entries, archive, placed⟩ := Alignment.check_reads checked
  have apart := apart sections records entries archive
  have stays := stays_iff_isAligned placed
  refine ⟨?_, ?_, fun aligned => ⟨sections, records, entries, archive, ?_, ?_⟩⟩
  · intro deflate start sink summary final run
    obtain ⟨outcome, -, rfl, -, keeps, rfl, rfl, rfl⟩ := exists_outcome run archive
    rw [outcome.realigned_eq_zero_iff keeps apart, ← stays]
  · rintro rfl
    exact isAligned_of_check_zero checked
  all_goals
    have inOrder : InOrder { default := a } entries records := by
      refine ⟨fun record mem => ?_, apart⟩
      obtain ⟨found, located⟩ := exists_located_of_placed placed mem
      exact ⟨found, located, stays.2 aligned record mem found located⟩
  · exact fun deflate start sink isOpen empty =>
      exists_run_of_inOrder archive inOrder deflate start isOpen empty
  · intro deflate start sink summary final run
    have output := output_of_inOrder run archive inOrder
    refine ⟨?_, fun none counts => ?_⟩
    · rw [output, archive.directory_eq, View.IsArchive.unsigned]
    · rw [output, archive.unsigned_eq none counts]

/-- Two entries, listed against their order in the file. -/
def pair : View :=
  View.ofBytes (Sample.listing [Sample.recordAt 0x62 41, Sample.recordAt 0x61 1])

theorem exists_isArchive_pair :
    ∃ sections entries,
      pair.IsArchive sections [Sample.recordAt 0x62 41, Sample.recordAt 0x61 1] entries ∧
        entries.Shows Sample.twoEntries := by
  obtain ⟨sections, entries, archive, shows, -⟩ := Sample.exists_isArchive_listing
    [Sample.recordAt 0x62 41, Sample.recordAt 0x61 1]
    (by decide +kernel) rfl (by decide +kernel)
  exact ⟨sections, entries, archive, shows⟩

theorem noOverlap_pair : pair.NoOverlap := by
  intro sections records entries archive
  obtain ⟨_, _, archive', shows⟩ := exists_isArchive_pair
  obtain ⟨rfl, rfl, rfl⟩ := archive.unique archive'
  exact Sample.apart_twoEntries shows (.swap _ _ [])

theorem check_pair : check pair 8 = .ok [⟨"a", 32, 8, false⟩, ⟨"b", 72, 8, false⟩] := by
  obtain ⟨sections, entries, archive, shows⟩ := exists_isArchive_pair
  obtain ⟨first, second⟩ := Sample.locate_twoEntries shows
  have order : Directory.inFileOrder [Sample.recordAt 0x62 41, Sample.recordAt 0x61 1] =
      [(Sample.recordAt 0x61 1, 1), (Sample.recordAt 0x62 41, 0)] :=
    Directory.inFileOrder_pair (by decide)
  rw [Alignment.check_of_isArchive archive, order]
  simp only [List.mapM_cons, List.mapM_nil, Alignment.placementOf, first, second]
  rfl

/-- The data of the two entries stands at 32 and at 72. -/
theorem sample_passes :
    ∃ placements, check pair 8 = .ok placements ∧ placements.length = 2 ∧
      (∀ placement ∈ placements, placement.isAligned = true) ∧ pair.NoOverlap ∧
      ∃ summary final, (sign (engine false) { alignment := { default := 8 } } pair).run
          { engine := false } = .ok summary final ∧
        summary.realigned = 0 ∧ final.output.bytes = pair.bytes 0 pair.size := by
  have plain {sections : Sections} (located : Sections.locate pair = .ok sections) :
      sections.signingBlock? = none ∧
        sections.endRecord.diskEntries = sections.endRecord.totalEntries := by
    have holds : (Sections.locate pair).toOption.any (fun sections =>
        sections.signingBlock?.isNone &&
          sections.endRecord.diskEntries = sections.endRecord.totalEntries) = true := by
      decide +kernel
    rw [located] at holds
    have holds : (sections.signingBlock?.isNone &&
      sections.endRecord.diskEntries = sections.endRecord.totalEntries) = true := holds
    simpa using holds
  have aligned : ∀ placement ∈ [(⟨"a", 32, 8, false⟩ : Placement), ⟨"b", 72, 8, false⟩],
      placement.isAligned = true := by decide
  obtain ⟨agree, -, passes⟩ := checked_archive_passes 8 check_pair noOverlap_pair
  obtain ⟨sections, records, entries, archive, succeeds, output⟩ := passes aligned
  obtain ⟨summary, final, run⟩ := succeeds Deflate.deflate false {} (fun _ _ _ => rfl) rfl
  obtain ⟨unsigned, counts⟩ := plain archive.located
  exact ⟨_, check_pair, rfl, aligned, noOverlap_pair, summary, final, run,
    (agree _ _ _ _ _ run).2 aligned, (output _ _ _ _ _ run).2 unsigned counts⟩

end PassThrough

end Signing
end ApkArchive

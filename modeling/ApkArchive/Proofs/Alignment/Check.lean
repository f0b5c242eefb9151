import ApkArchive.Alignment.Check
import ApkArchive.Proofs.Alignment.Plan
import ApkArchive.Proofs.Zip.FileOrder
import ApkArchive.Proofs.Zip.Sections

/-!
# What a check of an archive has looked at

A check that succeeds has located every entry of the directory and has a placement for each. What
it locates among the entries of an archive is what is located in the archive as a whole.
-/

namespace ApkArchive

/-- Every result of a successful sequence of computations is the result of one of them. -/
theorem exists_of_mem_mapM {f : α → Except ε β} {l : List α} {results : List β}
    (run : l.mapM f = .ok results) {b : β} (mem : b ∈ results) : ∃ a ∈ l, f a = .ok b := by
  induction l generalizing results with
  | nil =>
    cases run
    cases mem
  | cons a rest ih =>
    rw [List.mapM_cons, bind_eq_ok_iff] at run
    obtain ⟨first, here, run⟩ := run
    obtain ⟨others, there, run⟩ := bind_eq_ok_iff.1 run
    cases run
    rcases List.mem_cons.1 mem with rfl | later
    · exact ⟨a, List.mem_cons_self .., here⟩
    · obtain ⟨source, mem', ran⟩ := ih there later
      exact ⟨source, List.mem_cons_of_mem _ mem', ran⟩

/-- A successful sequence of computations has the result of each of them. -/
theorem exists_result_of_mapM {f : α → Except ε β} {l : List α} {results : List β}
    (run : l.mapM f = .ok results) {a : α} (mem : a ∈ l) : ∃ b ∈ results, f a = .ok b := by
  induction l generalizing results with
  | nil => cases mem
  | cons first rest ih =>
    rw [List.mapM_cons, bind_eq_ok_iff] at run
    obtain ⟨result, here, run⟩ := run
    obtain ⟨others, there, run⟩ := bind_eq_ok_iff.1 run
    cases run
    rcases List.mem_cons.1 mem with rfl | later
    · exact ⟨result, List.mem_cons_self .., here⟩
    · obtain ⟨b, mem', ran⟩ := ih there later
      exact ⟨b, List.mem_cons_of_mem _ mem', ran⟩

/-- A local record that is located in the front of an archive is located in the archive. -/
theorem LocalRecord.locate_of_slice {view part : View} {bytes : Bytes} {size : Nat}
    {record : DirectoryRecord} {found : LocalRecord} (shows : view.Shows bytes)
    (slice : view.slice 0 size = .ok part)
    (located : locate part record part.size = .ok found) :
    locate view record view.size = .ok found := by
  obtain ⟨layout, rfl, inside, has⟩ := locate_sound located
  obtain ⟨fits, -, -, length⟩ := View.slice_eq_ok_iff.1 slice
  rw [View.has_of_slice slice, Nat.zero_add] at has
  have total := shows.size
  exact locate_complete layout (Nat.le_refl _) (by omega) (shows.holds_range (by omega)) has

namespace Alignment

theorem placementOf_eq_ok {policy : Policy} {entries : View} {record : DirectoryRecord}
    {placement : Placement} (run : placementOf policy entries record = .ok placement) :
    ∃ found, LocalRecord.locate entries record entries.size = .ok found ∧
      placement = {
        name := found.name
        dataOffset := found.start + found.dataStart
        alignment := policy.alignmentFor found.name found.isCompressed
        compressed := found.isCompressed } := by
  unfold placementOf at run
  rw [bind_eq_ok_iff] at run
  obtain ⟨found, located, run⟩ := run
  cases run
  exact ⟨found, located, rfl⟩

/-- A check reads an archive and places the entries of its directory, each one once. -/
theorem check_reads {apk : View} {alignment : UInt16} {results : List Placement}
    (run : check apk alignment = .ok results) :
    ∃ sections records entries, apk.IsArchive sections records entries ∧
      ((Directory.inFileOrder records).mapM fun (record, _) =>
        placementOf { default := alignment } entries record) = .ok results := by
  unfold check placements at run
  rw [bind_eq_ok_iff] at run
  obtain ⟨sections, located, run⟩ := run
  rw [bind_eq_ok_iff] at run
  obtain ⟨directory, read, run⟩ := run
  rw [bind_eq_ok_iff] at run
  obtain ⟨records, parsed, run⟩ := run
  rw [bind_eq_ok_iff] at run
  obtain ⟨entries, sliced, run⟩ := run
  exact ⟨sections, records, entries, ⟨located, ⟨directory, read, parsed⟩, sliced⟩, run⟩

/-- What a check of an archive comes to. -/
theorem check_of_isArchive {apk : View} {sections : Sections} {records : List DirectoryRecord}
    {entries : View} (archive : apk.IsArchive sections records entries) (alignment : UInt16) :
    check apk alignment = (Directory.inFileOrder records).mapM fun (record, _) =>
      placementOf { default := alignment } entries record := by
  obtain ⟨located, ⟨directory, read, parsed⟩, sliced⟩ := archive
  unfold check placements
  rw [located]
  dsimp only [bind, Except.bind]
  rw [read]
  dsimp only
  rw [parsed]
  dsimp only
  rw [sliced]

/-- A check places the entries of the directory and no others. -/
theorem check_eq_ok {apk : View} {alignment : UInt16} {results : List Placement}
    (run : check apk alignment = .ok results) :
    ∃ sections records entries, apk.IsArchive sections records entries ∧
      ∀ placement ∈ results, ∃ record ∈ records,
        placementOf { default := alignment } entries record = .ok placement := by
  obtain ⟨sections, records, entries, archive, run⟩ := check_reads run
  refine ⟨sections, records, entries, archive, fun placement mem => ?_⟩
  obtain ⟨⟨record, number⟩, mem', placed⟩ := exists_of_mem_mapM run mem
  exact ⟨record, Directory.mem_iff_exists_mem_inFileOrder.2 ⟨number, mem'⟩, placed⟩

/-- A placement is aligned if its data begins at the boundary of its record. -/
theorem Placement.isAligned_iff {policy : Policy} {entries : View} {record : DirectoryRecord}
    {found : LocalRecord} {placement : Placement}
    (placed : placementOf policy entries record = .ok placement)
    (located : LocalRecord.locate entries record entries.size = .ok found) :
    placement.isAligned = true ↔ (found.start + found.dataStart) % policy.boundary found = 0 := by
  obtain ⟨found', located', rfl⟩ := placementOf_eq_ok placed
  cases located.symm.trans located'
  exact decide_eq_true_iff

end Alignment
end ApkArchive

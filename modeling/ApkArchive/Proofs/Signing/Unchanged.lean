import ApkArchive.Proofs.Signing.Progress
import ApkArchive.Proofs.Zip.Sections

/-!
# Archives that are rewritten unchanged

If no two local records of an archive share a byte and each of them may stay as it is, a sweep that
keeps all entries copies the bytes before the directory as they are: every local record lands where
it was, so no record of the directory changes, and nothing is aligned again.
-/

namespace ApkArchive

namespace Alignment.Policy

/-- At its old place a record stays as it is if its data is at its boundary, or if records that are
not aligned are to be left alone. -/
theorem plan_start_eq_unchanged_iff {policy : Policy} {record : LocalRecord} :
    policy.plan record record.start = .unchanged ↔
      policy.preserve = true ∨ (record.start + record.dataStart) % policy.boundary record = 0 := by
  have boundary : policy.boundary record =
    (policy.alignmentFor record.name record.isCompressed).toNat := rfl
  unfold plan
  dsimp only
  rw [← boundary]
  split
  · next one =>
    have := policy.boundary_pos record
    have one : policy.boundary record = 1 := by omega
    rw [one, Nat.mod_one]
    exact ⟨fun _ => Or.inr rfl, fun _ => rfl⟩
  split
  · next aligned => exact ⟨fun _ => Or.inr aligned, fun _ => rfl⟩
  next unaligned =>
  split
  · next preserved =>
    rw [Bool.and_eq_true] at preserved
    exact ⟨fun _ => Or.inl preserved.1, fun _ => rfl⟩
  · next moves =>
    rw [Bool.and_eq_true, decide_eq_true_eq] at moves
    constructor
    · intro h; cases h
    · rintro (preserved | aligned)
      · exact absurd ⟨preserved, unaligned⟩ moves
      · exact absurd aligned unaligned

end Alignment.Policy

/-- The directory of an archive was small enough to be read, so it is small enough to be written. -/
theorem View.IsArchive.fits {apk : View} {sections : Sections} {records : List DirectoryRecord}
    {entries : View} (h : apk.IsArchive sections records entries) :
    Directory.size records ≤ View.maxBufferSize ∧ records.length < 65536 := by
  obtain ⟨directory, read, parsed⟩ := h.parsed
  obtain ⟨rfl, count, -⟩ := Directory.parse_eq_ok_iff.1 parsed
  obtain ⟨small, bytes⟩ := Sections.readDirectory_eq_ok_iff.1 read
  obtain ⟨-, -, -, bytes⟩ := View.read_eq_ok_iff.1 bytes
  obtain ⟨-, -, -, -, number, -, -⟩ := Sections.locate_eq_ok_iff.1 h.located
  refine ⟨?_, ?_⟩
  · rw [Directory.size_eq, bytes, View.length_bytes]
    exact small
  · rw [count, number]
    exact UInt16.toNat_lt _

namespace Signing

open ApkArchive.Alignment (Policy)

/-! ### Local records that do not overlap -/

/-- The local records of two entries share no byte. -/
def Apart (entries : View) (a b : DirectoryRecord) : Prop :=
  ∀ found found', LocalRecord.locate entries a entries.size = .ok found →
    LocalRecord.locate entries b entries.size = .ok found' →
      found.stop ≤ found'.start ∨ found'.stop ≤ found.start

theorem Apart.symm {entries : View} {a b : DirectoryRecord} (h : Apart entries a b) :
    Apart entries b a :=
  fun found found' first second => (h found' found second first).symm

/-- The local record of the first entry ends before that of the second one begins. -/
def Before (entries : View) (a b : DirectoryRecord) : Prop :=
  ∀ found found', LocalRecord.locate entries a entries.size = .ok found →
    LocalRecord.locate entries b entries.size = .ok found' → found.stop ≤ found'.start

/-- A local record is not empty, begins where its directory record says, and lies inside. -/
theorem bounds_of_located {entries : View} {record : DirectoryRecord} {found : LocalRecord}
    (located : LocalRecord.locate entries record entries.size = .ok found) :
    found.start = record.localOffset.toNat ∧ found.start < found.stop ∧
      found.stop ≤ entries.size := by
  obtain ⟨layout, rfl, inside, -⟩ := LocalRecord.locate_sound located
  have length := layout.length_bytes
  have size : layout.found.size = layout.bytes.length := rfl
  have start : layout.found.start = record.localOffset.toNat := rfl
  simp only [LocalHeader.fixedSize] at length
  refine ⟨rfl, ?_, inside⟩
  rw [LocalRecord.stop, size]
  omega

/-- In file order, local records that share no byte follow each other. -/
theorem pairwise_before {entries : View} {records : List DirectoryRecord}
    (apart : records.Pairwise (Apart entries)) :
    (Directory.inFileOrder records).Pairwise fun a b => Before entries a.1 b.1 := by
  have numbered : records.zipIdx.Pairwise fun a b => Apart entries a.1 b.1 := by
    rw [← List.zipIdx_map_fst 0 records, List.pairwise_map] at apart
    exact apart
  have sorted := ((Directory.inFileOrder_perm records).pairwise_iff fun h => h.symm).2 numbered
  refine ((Directory.pairwise_inFileOrder records).and sorted).imp ?_
  rintro a b ⟨le, apart⟩ found found' first second
  have first' := bounds_of_located first
  have second' := bounds_of_located second
  -- Local records are not empty, so the one that begins first cannot be the later one.
  rcases apart found found' first second with before | after
  · exact before
  · omega

/-- An archive whose local records share no byte and stay as they are where they stand. -/
structure InOrder (policy : Policy) (entries : View) (records : List DirectoryRecord) : Prop where
  located : ∀ record ∈ records, ∃ found,
    LocalRecord.locate entries record entries.size = .ok found ∧
      policy.plan found found.start = .unchanged
  apart : records.Pairwise (Apart entries)

/-! ### The sweep -/

/-- Where an engine looks at the data of the entry, the data goes into its sink. -/
def Showable (looks : Stage → String → Option Sink) (entries : View) (record : DirectoryRecord) :
    Prop :=
  ∀ found, LocalRecord.locate entries record entries.size = .ok found →
    ∀ stage sink, looks stage record.name = some sink →
      ∃ sink', found.emitData entries sink = .ok () sink'

/-- Nothing is to be shown to an engine that does not look. -/
theorem Showable.of_none (entries : View) (record : DirectoryRecord) :
    Showable (fun _ _ => none) entries record := fun _ _ _ _ => nofun

open Run

variable {engine : Engine σ} {looks : Stage → String → Option Sink} {keeps : String → Prop}
variable {additions : Option (List NewEntry)} {request : Option BlockRequest} {config : Config}
variable {entries : View}

/-- What lies between two places is copied. -/
theorem completes_copyGap {covered stop : Nat} (notice : Notice) {next : Run σ α} {a : α}
    {written : Bytes} (le : covered ≤ stop) (inside : stop ≤ entries.size)
    (held : entries.Holds 0 entries.size)
    (rest : Completes next (entries.bytes 0 stop) a written) :
    Completes (if 0 < stop - covered then do
        note notice
        emit (entries.feed covered (stop - covered))
        next
      else next) (entries.bytes 0 covered) a
      (entries.bytes covered (stop - covered) ++ written) := by
  have reached := entries.bytes_join (Nat.zero_le covered) le
  split
  · have fed := entries.delivers_feed covered (stop - covered)
      (by omega) (held.mono (Nat.zero_le _) (by omega))
    exact (Completes.note notice).andThen ((Completes.emit fed).bind (reached ▸ rest))
  · next done =>
    have same : covered = stop := by omega
    rw [← same] at rest ⊢
    rw [Nat.sub_self]
    exact rest

theorem completes_copyEntry {record : DirectoryRecord} {number : Nat} {found : LocalRecord}
    (located : LocalRecord.locate entries record entries.size = .ok found)
    (stays : config.alignment.plan found found.start = .unchanged)
    (held : entries.Holds 0 entries.size) :
    Completes (copyEntry config entries record number found found.start : Run σ (Fate × Nat))
      (entries.bytes 0 found.start) (.kept record number false, found.size)
      (entries.bytes found.start found.size) := by
  obtain ⟨start, -, inside⟩ := bounds_of_located located
  have field : fieldOffset found.start = .ok record.localOffset := by
    rw [fieldOffset_eq_ok_iff, start, UInt32.ofNat_toNat]
    exact ⟨record.localOffset.toNat_lt, rfl⟩
  have copied := LocalRecord.delivers_copy inside
    (held.mono (Nat.zero_le _) (by rw [Nat.zero_add]; exact inside))
  unfold copyEntry
  refine (Completes.ofExcept field).andThen ?_
  dsimp only
  rw [stays]
  exact (Completes.emit copied).bind_silent ((Completes.note _).andThen (.pure _ _))

theorem completes_showData? (predictable : engine.Predictable looks keeps additions request)
    {record : DirectoryRecord} {found : LocalRecord}
    (located : LocalRecord.locate entries record entries.size = .ok found)
    (showable : Showable looks entries record) (stage : Stage) (front : Bytes) :
    Completes (showData? engine stage entries found (looks stage record.name)) front () [] := by
  have name := LocalRecord.name_of_locate located
  unfold showData? show?
  cases looking : looks stage record.name with
  | none => exact .pure _ ()
  | some sink =>
    obtain ⟨sink', fed⟩ := showable found located stage sink looking
    have fed : (found.emitData entries).run sink = .ok () sink' := fed
    have told := predictable.inspected stage record.name (by rw [looking]; nofun)
      sink'.contents.data.toList
    rw [← name] at told
    dsimp only
    rw [fed]
    exact (Completes.note _).andThen (Completes.ask told)

theorem completes_settleEntry (predictable : engine.Predictable looks keeps additions request)
    {record : DirectoryRecord} {number : Nat} {found : LocalRecord} (named : keeps record.name)
    (located : LocalRecord.locate entries record entries.size = .ok found)
    (stays : config.alignment.plan found found.start = .unchanged)
    (held : entries.Holds 0 entries.size) (showable : Showable looks entries record) :
    Completes (settleEntry engine config entries record number found found.start)
      (entries.bytes 0 found.start) (.kept record number false, found.size)
      (entries.bytes found.start found.size) := by
  obtain ⟨remark, decides⟩ := predictable.inputEntry record.name named
  have shows := completes_showData? predictable located showable
  unfold settleEntry
  refine (Completes.ask decides).andThen ((Completes.note? _).andThen ?_)
  refine (shows .input _).andThen ((Completes.ask (predictable.outputEntry _)).andThen ?_)
  exact (shows .output _).andThen (completes_copyEntry located stays held)

/-- The output has grown as far as the input is covered. -/
def Sweep.inPlace (covered : Nat) (fates : List Fate) : Sweep where
  covered
  offset := covered
  fates

theorem completes_sweepEntry (predictable : engine.Predictable looks keeps additions request)
    {record : DirectoryRecord} (number : Nat) {found : LocalRecord} (named : keeps record.name)
    (located : LocalRecord.locate entries record entries.size = .ok found)
    (stays : config.alignment.plan found found.start = .unchanged)
    (held : entries.Holds 0 entries.size) (showable : Showable looks entries record)
    {covered : Nat} (fates : List Fate) (reached : covered ≤ found.start) :
    Completes (sweepEntry engine config entries (.inPlace covered fates) (record, number))
      (entries.bytes 0 covered) (.inPlace found.stop (.kept record number false :: fates))
      (entries.bytes covered (found.stop - covered)) := by
  obtain ⟨-, some_bytes, inside⟩ := bounds_of_located located
  have settled : Completes (do
        let settled ← settleEntry engine config entries record number found found.start
        return Sweep.mk (max covered found.stop) (found.start + settled.2) (settled.1 :: fates))
      (entries.bytes 0 found.start) (.inPlace found.stop (.kept record number false :: fates))
      (entries.bytes found.start found.size) := by
    refine (completes_settleEntry predictable named located stays held showable).bind_silent ?_
    rw [Nat.max_eq_right (by omega)]
    exact .pure _ _
  have all := completes_copyGap (.gapCopied (found.start - covered) covered) reached (by omega)
    held settled
  have size : found.size = found.stop - found.start := (Nat.add_sub_cancel_left ..).symm
  rw [size, entries.bytes_join reached (by omega)] at all
  have here : covered + (found.start - covered) = found.start := Nat.add_sub_of_le reached
  unfold sweepEntry
  refine (Completes.ofExcept (mapError_eq_ok_iff.2 located)).andThen ?_
  dsimp only [Sweep.inPlace]
  rw [here]
  exact all

/-- The fates of entries that were copied as they are, last one first. -/
def unchangedFates (todo : List (DirectoryRecord × Nat)) : List Fate :=
  (todo.map fun entry => .kept entry.1 entry.2 false).reverse

/-- The induction is on the entries that are left; each one begins after all that is covered. -/
theorem completes_foldlM_sweepEntry
    (predictable : engine.Predictable looks keeps additions request)
    (held : entries.Holds 0 entries.size) {todo : List (DirectoryRecord × Nat)}
    (follow : todo.Pairwise fun a b => Before entries a.1 b.1)
    (ready : ∀ entry ∈ todo, keeps entry.1.name ∧ Showable looks entries entry.1 ∧ ∃ found,
      LocalRecord.locate entries entry.1 entries.size = .ok found ∧
        config.alignment.plan found found.start = .unchanged)
    {covered : Nat} (fates : List Fate) (inside : covered ≤ entries.size)
    (reached : ∀ entry ∈ todo, ∀ found,
      LocalRecord.locate entries entry.1 entries.size = .ok found → covered ≤ found.start) :
    ∃ covered', covered ≤ covered' ∧ covered' ≤ entries.size ∧
      Completes (todo.foldlM (sweepEntry engine config entries) (.inPlace covered fates))
        (entries.bytes 0 covered) (.inPlace covered' (unchangedFates todo ++ fates))
        (entries.bytes covered (covered' - covered)) := by
  induction todo generalizing covered fates with
  | nil =>
    refine ⟨covered, Nat.le_refl _, inside, ?_⟩
    rw [Nat.sub_self]
    exact .pure _ _
  | cons entry rest ih =>
    obtain ⟨before, follow⟩ := List.pairwise_cons.1 follow
    obtain ⟨named, showable, found, located, stays⟩ := ready entry (List.mem_cons_self ..)
    have start := reached entry (List.mem_cons_self ..) found located
    obtain ⟨-, some_bytes, stop⟩ := bounds_of_located located
    have step := completes_sweepEntry predictable entry.2 named located stays held showable fates
      start
    obtain ⟨covered', le, inside', steps⟩ := ih follow
      (fun next mem => ready next (List.mem_cons_of_mem _ mem))
      (.kept entry.1 entry.2 false :: fates) stop
      (fun next mem found' located' => before next mem found found' located located')
    refine ⟨covered', by omega, inside', ?_⟩
    have forth : covered ≤ found.stop := by omega
    have here := entries.bytes_join (Nat.zero_le covered) forth
    have there := entries.bytes_join forth le
    rw [Nat.sub_zero, Nat.sub_zero] at here
    rw [← here] at steps
    have fates_eq : unchangedFates (entry :: rest) ++ fates =
        unchangedFates rest ++ .kept entry.1 entry.2 false :: fates := by
      simp [unchangedFates]
    rw [List.foldlM_cons, fates_eq, ← there]
    exact step.bind steps

theorem completes_sweepEntries (predictable : engine.Predictable looks keeps additions request)
    (held : entries.Holds 0 entries.size) {records : List DirectoryRecord}
    (inOrder : InOrder config.alignment entries records)
    (named : ∀ record ∈ records, keeps record.name)
    (showable : ∀ record ∈ records, Showable looks entries record) :
    ∃ sweep : Sweep, sweep.fates = unchangedFates (Directory.inFileOrder records) ∧
      sweep.offset = entries.size ∧ Completes (sweepEntries engine config entries records) [] sweep
        (entries.bytes 0 entries.size) := by
  have listed {entry : DirectoryRecord × Nat} (mem : entry ∈ Directory.inFileOrder records) :
      entry.1 ∈ records := Directory.mem_iff_exists_mem_inFileOrder.2 ⟨entry.2, mem⟩
  obtain ⟨covered, -, inside, swept⟩ := completes_foldlM_sweepEntry predictable held
    (pairwise_before inOrder.apart)
    (fun entry mem =>
      ⟨named _ (listed mem), showable _ (listed mem), inOrder.located _ (listed mem)⟩)
    [] (Nat.zero_le _) (fun _ _ _ _ => Nat.zero_le _)
  rw [List.append_nil] at swept
  let sweep : Sweep := {
    covered
    offset := covered + (entries.size - covered)
    fates := unchangedFates (Directory.inFileOrder records) }
  have done : Completes (pure sweep : Run σ Sweep) (entries.bytes 0 entries.size) sweep [] :=
    .pure _ _
  have tail := completes_copyGap (.tailCopied (entries.size - covered) covered) inside
    (Nat.le_refl _) held done
  have whole := entries.bytes_join (Nat.zero_le covered) inside
  rw [Nat.sub_zero, Nat.sub_zero] at whole
  rw [List.append_nil] at tail
  rw [← whole]
  unfold sweepEntries
  exact ⟨sweep, rfl, Nat.add_sub_of_le inside, swept.bind tail⟩

/-- Records that were copied as they are make up the old directory. -/
theorem Sweep.records_of_unchanged {sweep : Sweep} {records : List DirectoryRecord}
    (unchanged : sweep.fates = unchangedFates (Directory.inFileOrder records)) :
    sweep.records = records := by
  have kept : sweep.fates.reverse.filterMap Fate.kept? = Directory.inFileOrder records := by
    rw [unchanged, unchangedFates, List.reverse_reverse, List.filterMap_map]
    exact List.filterMap_some
  rw [Sweep.records, kept, Directory.mergeSort_inFileOrder, List.zipIdx_map_fst]

theorem counts_of_unchanged (todo : List (DirectoryRecord × Nat)) :
    (unchangedFates todo).countP Fate.isRealigned = 0 ∧ (unchangedFates todo).count .skipped = 0 ∧
      (unchangedFates todo).count .replaced = 0 := by
  rw [unchangedFates, List.countP_reverse, List.count_reverse, List.count_reverse]
  refine ⟨?_, ?_, ?_⟩
  · rw [List.countP_eq_zero]
    intro fate mem
    obtain ⟨entry, -, rfl⟩ := List.mem_map.1 mem
    exact Bool.false_ne_true
  all_goals
    rw [List.count_eq_zero]
    intro mem
    obtain ⟨entry, -, same⟩ := List.mem_map.1 mem
    cases same

/-! ### Nothing is added -/

/-- For an engine that adds nothing, nothing is written. -/
theorem completes_addEntries_of_none
    (predictable : engine.Predictable looks keeps additions request)
    (nothing : ∀ new, additions = some new → new = []) (deflate : Bytes → Bytes)
    (kept : List DirectoryRecord) (offset : Nat) (front : Bytes) :
    Completes (addEntries engine deflate kept offset) front ([], offset) [] := by
  unfold addEntries
  refine (Completes.ask predictable.newEntries).andThen ?_
  cases additions with
  | none => exact .pure _ _
  | some new =>
    obtain rfl := nothing new rfl
    refine Completes.andThen (.pure _ _) ?_
    exact (Completes.ask predictable.newEntriesWritten).andThen (.pure _ _)

/-! ### The directory -/

theorem completes_negotiate (predictable : engine.Predictable looks keeps additions request)
    {multiple offset : Nat} (attempts : Nat) (shown : ByteArray) {directory front : Bytes}
    {endRecord : EndRecord}
    (aligned : (offset + request.elim 0 BlockRequest.size + directory.length +
      endRecord.encode.length) % multiple = 0) :
    Completes (negotiate engine multiple shown offset directory (attempts + 1) endRecord) front
      (endRecord, request) [] := by
  unfold negotiate
  refine (Completes.ask (predictable.signingBlock _)).andThen ?_
  dsimp only
  rw [if_pos aligned]
  exact .pure _ _

theorem completes_writeBlock (predictable : engine.Predictable looks keeps additions request)
    {front : Bytes} {endRecord : EndRecord} {offset : Nat} {block : BlockRequest}
    (fits : offset + block.size < UInt32.size) :
    Completes (writeBlock engine endRecord offset block) front
      (endRecord.withDirectoryOffset (UInt32.ofNat (offset + block.size))) block.bytes := by
  have moved := fieldOffset_eq_ok_iff.2 ⟨fits, rfl⟩
  unfold writeBlock
  refine (Completes.emit (Sink.delivers_write _)).bind ?_
  refine (Completes.emit (Sink.delivers_write _)).bind_silent ?_
  refine (Completes.note _).andThen ((Completes.ofExcept moved).andThen ?_)
  exact (Completes.ask predictable.blockWritten).andThen (.pure _ _)

/-- What is written after the entries of an output, if the comment needs no padding. -/
def closingBytes (inputEnd : EndRecord) (front : Bytes) (records : List DirectoryRecord)
    (request : BlockRequest) : Bytes :=
  request.bytes ++ (Directory.encode records ++
    (inputEnd.withDirectory (UInt16.ofNat records.length) (UInt32.ofNat (Directory.size records))
      (UInt32.ofNat (front.length + request.size))).encode)

theorem length_closingBytes (inputEnd : EndRecord) (front : Bytes) (records : List DirectoryRecord)
    (request : BlockRequest) :
    (closingBytes inputEnd front records request).length =
      request.size + (Directory.encode records).length +
        (EndRecord.fixedSize + inputEnd.comment.length) := by
  simp only [closingBytes, List.length_append, BlockRequest.length_bytes, EndRecord.length_encode,
    EndRecord.withDirectory]
  omega

theorem completes_writeDirectory (predictable : engine.Predictable looks keeps additions request)
    {inputEnd : EndRecord} {records : List DirectoryRecord} {front : Bytes}
    (sizeFits : Directory.size records ≤ View.maxBufferSize) (countFits : records.length < 65536)
    (offsetFits : front.length + (BlockRequest.orEmpty request).size < UInt32.size)
    (aligned : (front ++ closingBytes inputEnd front records (.orEmpty request)).length %
      max 1 (config.sizeMultiple.getD 1) = 0) :
    Completes (writeDirectory engine config inputEnd records front.length) front
      (BlockRequest.orEmpty request).size
      (closingBytes inputEnd front records (.orEmpty request)) := by
  have placed := fieldOffset_eq_ok_iff.2 ⟨Nat.lt_of_le_of_lt (Nat.le_add_right ..) offsetFits, rfl⟩
  have total : (front ++ closingBytes inputEnd front records (.orEmpty request)).length =
      front.length + (BlockRequest.orEmpty request).size + (Directory.encode records).length +
        (EndRecord.fixedSize + inputEnd.comment.length) := by
    rw [List.length_append, length_closingBytes]
    omega
  rw [total] at aligned
  unfold writeDirectory
  refine Completes.guard (Nat.not_lt.2 sizeFits) (Completes.guard (Nat.not_le.2 countFits) ?_)
  refine (Completes.ofExcept placed).andThen (Completes.of_state fun s _ => ?_)
  have blockSize : request.elim 0 BlockRequest.size = (BlockRequest.orEmpty request).size := by
    cases request <;> rfl
  let first := inputEnd.withDirectory (UInt16.ofNat records.length)
    (UInt32.ofNat (Directory.size records)) (UInt32.ofNat front.length)
  have length : first.encode.length = EndRecord.fixedSize + inputEnd.comment.length :=
    first.length_encode
  refine (completes_negotiate predictable 7 s.output.contents
    (by rw [blockSize, length]; exact aligned)).andThen ?_
  have rest (endRecord : EndRecord) (front' : Bytes) : Completes (do
      emit ((View.ofBytes (Directory.encode records)).feed 0 (Directory.size records))
      emit (Sink.write endRecord.encode)
      return request.elim 0 BlockRequest.size : Run σ Nat) front'
        (BlockRequest.orEmpty request).size (Directory.encode records ++ endRecord.encode) := by
    have shows := View.shows_ofBytes (Directory.encode records)
    have fed := (View.ofBytes (Directory.encode records)).delivers_feed 0 (Directory.size records)
      (Nat.le_of_eq (by rw [shows.size, Directory.size_eq, Nat.zero_add]))
      (by rw [Directory.size_eq, ← shows.size]; exact shows.holds)
    have whole := shows.contents
    rw [shows.size, ← Directory.size_eq] at whole
    rw [whole] at fed
    rw [blockSize]
    exact (Completes.emit fed).bind
      ((Completes.emit (Sink.delivers_write _)).bind_silent (.pure _ _))
  cases request with
  | none =>
    have nothing : (BlockRequest.orEmpty none).bytes = [] := rfl
    have place : front.length + (BlockRequest.orEmpty none).size = front.length := rfl
    rw [closingBytes, nothing, place, List.nil_append]
    exact Completes.andThen (a := first) (.pure _ _) (rest first front)
  | some block =>
    refine Completes.bind (completes_writeBlock predictable offsetFits) ?_
    exact rest (first.withDirectoryOffset (UInt32.ofNat (front.length + block.size))) _

/-! ### The run -/

/-- The counts of a run in which no entry of the input has changed. -/
structure Summary.Unchanged (summary : Summary) (records : List DirectoryRecord) : Prop where
  copied : summary.copied = records.length
  realigned : summary.realigned = 0
  skipped : summary.skipped = 0
  replaced : summary.replaced = 0

/-- A run on an archive in order copies its entries as they are. After them stands what the engine
adds, if the entries that it adds can be written. -/
theorem completes_sign (config : Config)
    (predictable : engine.Predictable looks keeps additions request) {deflate : Bytes → Bytes}
    {input : View} {sections : Sections} {records new : List DirectoryRecord}
    {front appended : Bytes}
    (archive : input.IsArchive sections records entries) (held : entries.Holds 0 entries.size)
    (inOrder : InOrder config.alignment entries records)
    (named : ∀ record ∈ records, keeps record.name)
    (showable : ∀ record ∈ records, Showable looks entries record)
    (adds : Completes (addEntries engine deflate records entries.size)
      (entries.bytes 0 entries.size) (new, entries.size + appended.length) appended)
    (body : entries.bytes 0 entries.size ++ appended = front)
    (sizeFits : Directory.size (records ++ new) ≤ View.maxBufferSize)
    (countFits : (records ++ new).length < 65536)
    (offsetFits : front.length + (BlockRequest.orEmpty request).size < UInt32.size)
    (aligned : (front ++ closingBytes sections.endRecord front (records ++ new)
      (.orEmpty request)).length % max 1 (config.sizeMultiple.getD 1) = 0) :
    ∃ summary, Completes (sign engine config input deflate) [] summary
        (front ++ closingBytes sections.endRecord front (records ++ new) (.orEmpty request)) ∧
      summary.Unchanged records := by
  obtain ⟨directory, read, parsed⟩ := archive.parsed
  obtain ⟨sweep, fates, counted, swept⟩ :=
    completes_sweepEntries predictable held inOrder named showable
  have kept := Sweep.records_of_unchanged fates
  obtain ⟨realigned, skipped, replaced⟩ := counts_of_unchanged (Directory.inFileOrder records)
  have closed := completes_writeDirectory predictable sizeFits countFits offsetFits aligned
  obtain ⟨total, size⟩ : ∃ total, (front ++ closingBytes sections.endRecord front (records ++ new)
    (.orEmpty request)).length = total := ⟨_, rfl⟩
  refine ⟨{
    copied := records.length
    realigned := sweep.fates.countP Fate.isRealigned
    skipped := sweep.fates.count .skipped
    replaced := sweep.fates.count .replaced
    added := new.length
    blockSize := (BlockRequest.orEmpty request).size
    outputSize := total }, ?_, rfl, fates ▸ realigned, fates ▸ skipped, fates ▸ replaced⟩
  unfold sign
  refine Completes.position.andThen (Completes.guard (not_not_intro rfl) ?_)
  refine (Completes.ofExcept archive.located).andThen ((Completes.note? _).andThen ?_)
  refine (Completes.ofExcept read).andThen ((Completes.ofExcept parsed).andThen ?_)
  refine (Completes.note _).andThen ((Completes.ask (predictable.inputBlock _)).andThen ?_)
  have reached : entries.size + appended.length = front.length := by
    rw [← body, List.length_append, View.length_bytes]
  rw [reached] at adds
  rw [← body] at adds closed size ⊢
  rw [List.append_assoc]
  refine (Completes.ofExcept archive.sliced).andThen (swept.bind ?_)
  dsimp only
  rw [kept, counted, List.nil_append]
  refine adds.bind (closed.bind_silent (Completes.position.andThen ?_))
  rw [size]
  exact (Completes.ask predictable.finished).andThen ((Completes.note _).andThen (.pure _ _))

/-- If nothing is added either, all but the end record is copied. -/
theorem completes_sign_of_no_additions (steady : engine.Steady keeps none request)
    (deflate : Bytes → Bytes) {input : View} {sections : Sections} {records : List DirectoryRecord}
    {front : Bytes} (archive : input.IsArchive sections records entries)
    (shows : entries.Shows front)
    (inOrder : InOrder config.alignment entries records)
    (named : ∀ record ∈ records, keeps record.name)
    (offsetFits : front.length + (BlockRequest.orEmpty request).size < UInt32.size)
    (aligned : (front ++ closingBytes sections.endRecord front records (.orEmpty request)).length %
      max 1 (config.sizeMultiple.getD 1) = 0) :
    ∃ summary, Completes (sign engine config input deflate) [] summary
        (front ++ closingBytes sections.endRecord front records (.orEmpty request)) ∧
      summary.Unchanged records := by
  have adds := completes_addEntries_of_none steady.predictable (fun _ => nofun) deflate records
    entries.size (entries.bytes 0 entries.size)
  have body : entries.bytes 0 entries.size ++ [] = front := by
    rw [List.append_nil, shows.contents]
  obtain ⟨sizeFits, countFits⟩ := archive.fits
  have all := completes_sign config steady.predictable archive shows.holds inOrder named
    (fun _ _ => .of_none _ _) adds body
  rw [List.append_nil] at all
  exact all sizeFits countFits offsetFits aligned

end Signing
end ApkArchive

import ApkArchive.Proofs.Zip.Alike
import ApkArchive.Proofs.Zip.Archive
import ApkArchive.Proofs.Zip.FileOrder

/-!
# Archives with the records of their directory in another order

All that is found in such an archive is found in the other one, too: the end record, the signing
block and the entries, since they stand before the directory or after it, and the records, in their
own order. If no two of the records point to the same place, their file order is the same.
-/

namespace ApkArchive

/-! ### The front of an archive -/

namespace View.Shows

variable {apk : View} {front back : Bytes}

theorem bytes_front (shows : apk.Shows (front ++ back)) {offset n : Nat}
    (inside : offset + n ≤ front.length) : apk.bytes offset n = (front.drop offset).take n := by
  have part := shows.has_front.part offset n inside
  rwa [Nat.zero_add] at part

theorem read_front (shows : apk.Shows (front ++ back)) {offset n : Nat}
    (inside : offset + n ≤ front.length) (small : n ≤ View.maxBufferSize) :
    apk.read offset n = .ok ((front.drop offset).take n) := by
  rw [← shows.bytes_front inside]
  exact shows.read offset n (by rw [List.length_append]; omega) small

theorem slice_front (shows : apk.Shows (front ++ back)) {offset n : Nat}
    (inside : offset + n ≤ front.length) :
    ∃ part, apk.slice offset n = .ok part ∧ part.Shows ((front.drop offset).take n) := by
  have within : offset + n ≤ (front ++ back).length := by
    rw [List.length_append]
    omega
  obtain ⟨part, slice, shown⟩ := shows.slice offset n within
  rw [← shows.bytes_eq within, shows.bytes_front inside] at shown
  exact ⟨part, slice, shown⟩

end View.Shows

/-! ### Signing blocks -/

namespace SigningBlock

/-- What was found in two archives differs in the place where it is stored. -/
inductive Search.Alike : Search → Search → Prop
  | absent : Alike .absent .absent
  | ignored (flaw : Flaw) : Alike (.ignored flaw) (.ignored flaw)
  | found (offset : Nat) {contents contents' : View} (alike : contents.Alike contents') :
      Alike (.found ⟨offset, contents⟩) (.found ⟨offset, contents'⟩)

variable {apk apk' : View} {front back back' : Bytes}

/-- What is found before a place depends on what stands before it only. -/
theorem find_alike (shows : apk.Shows (front ++ back)) (shows' : apk'.Shows (front ++ back'))
    {before : Search} (search : find apk front.length = .ok before) :
    ∃ before', find apk' front.length = .ok before' ∧ before.Alike before' := by
  unfold find at search ⊢
  split at search
  · next short =>
    cases search
    exact ⟨_, if_pos short, .absent⟩
  next enough =>
  rw [if_neg enough]
  have long : 32 ≤ front.length := Nat.le_of_not_lt enough
  have inside : front.length - footerSize + footerSize ≤ front.length := by
    simp only [footerSize]
    omega
  rw [shows.read_front inside (by decide)] at search
  rw [shows'.read_front inside (by decide)]
  dsimp only [bind, Except.bind] at search ⊢
  split at search
  · next plain =>
    cases search
    exact ⟨_, if_pos plain, .absent⟩
  next magical =>
  rw [if_neg magical]
  split at search
  · next sized =>
    cases search
    exact ⟨_, if_pos sized, .ignored _⟩
  next sized =>
  rw [if_neg sized]
  split at search
  · next short =>
    cases search
    exact ⟨_, if_pos short, .ignored _⟩
  next fits =>
  rw [if_neg fits]
  generalize LittleEndian.decode (((front.drop (front.length - footerSize)).take footerSize).take 8)
    = size at search fits ⊢
  have start : front.length - (size + 8) + (size + 8) ≤ front.length := by omega
  have header : front.length - (size + 8) + 8 ≤ front.length := by omega
  rw [shows.read_front header (by decide)] at search
  rw [shows'.read_front header (by decide)]
  dsimp only at search ⊢
  split at search
  · next differ =>
    cases search
    exact ⟨_, if_pos differ, .ignored _⟩
  next same =>
  rw [if_neg same]
  obtain ⟨part, slice, shown⟩ := shows.slice_front start
  obtain ⟨part', slice', shown'⟩ := shows'.slice_front start
  rw [slice] at search
  rw [slice']
  cases search
  exact ⟨_, rfl, .found _ ⟨_, shown, shown'⟩⟩

end SigningBlock

/-! ### Directories -/

namespace Directory

theorem encode_inj {records records' : List DirectoryRecord}
    (same : encode records = encode records') : records = records' := by
  have nonempty (record : DirectoryRecord) (rest : Bytes) : record.encode ++ rest ≠ [] := by
    intro empty
    have length := congrArg List.length empty
    simp [DirectoryRecord.length_encode, DirectoryRecord.size, DirectoryRecord.fixedSize] at length
  induction records generalizing records' with
  | nil =>
    cases records' with
    | nil => rfl
    | cons record' rest' => exact absurd same.symm (nonempty record' _)
  | cons record rest ih =>
    cases records' with
    | nil => exact absurd same (nonempty record _)
    | cons record' rest' =>
      have same : record.encode ++ encode rest = record'.encode ++ encode rest' := same
      have first := DirectoryRecord.parse_eq_ok_iff.2 (Eq.refl (record.encode ++ encode rest))
      rw [DirectoryRecord.parse_eq_ok_iff.2 same] at first
      obtain ⟨rfl, left⟩ := Prod.mk.inj (Except.ok.inj first)
      rw [ih left.symm]

theorem size_of_perm {records records' : List DirectoryRecord} (perm : records.Perm records') :
    size records = size records' := by
  induction perm with
  | nil => rfl
  | cons record _ ih => exact congrArg (record.size + ·) ih
  | swap first second rest => exact Nat.add_left_comm ..
  | trans _ _ ih ih' => exact ih.trans ih'

theorem length_encode_of_perm {records records' : List DirectoryRecord}
    (perm : records.Perm records') : (encode records).length = (encode records').length := by
  rw [← size_eq, ← size_eq, size_of_perm perm]

/-- Only records that point to the same place can have another file order. -/
theorem map_fst_inFileOrder_of_perm {records records' : List DirectoryRecord}
    (perm : records.Perm records')
    (apart : ∀ first ∈ records, ∀ second ∈ records, first.localOffset = second.localOffset →
      first = second) :
    (inFileOrder records).map (·.1) = (inFileOrder records').map (·.1) := by
  have listed := map_fst_inFileOrder_perm records
  have listed' := (map_fst_inFileOrder_perm records').trans perm.symm
  have sorted (records : List DirectoryRecord) : ((inFileOrder records).map (·.1)).Pairwise
      fun a b => a.localOffset.toNat ≤ b.localOffset.toNat :=
    List.pairwise_map.2 (pairwise_inFileOrder records)
  refine (listed.trans listed'.symm).eq_of_pairwise ?_ (sorted records) (sorted records')
  intro first second mem mem' le ge
  refine apart first (listed.mem_iff.1 mem) second (listed'.mem_iff.1 mem') ?_
  exact UInt32.toNat_inj.1 (Nat.le_antisymm le ge)

end Directory

/-! ### Archives -/

/-- `apk'` is the archive `apk` with the records of its directory in another order. -/
structure View.Reorders (apk apk' : View) (sections : Sections)
    (records records' : List DirectoryRecord) : Prop where
  located : Sections.locate apk = .ok sections
  perm : records.Perm records'
  shows : ∃ front back, apk.Shows (front ++ (Directory.encode records ++ back)) ∧
    apk'.Shows (front ++ (Directory.encode records' ++ back)) ∧
    sections.directoryOffset = front.length ∧
    sections.directorySize = (Directory.encode records).length

namespace View.Reorders

variable {apk apk' : View} {sections : Sections} {records records' : List DirectoryRecord}

/-- The sections are at the same places, and what stands before the directory is the same. -/
theorem exists_located (reorders : apk.Reorders apk' sections records records') :
    ∃ before, Sections.locate apk' = .ok { sections with beforeDirectory := before } ∧
      sections.beforeDirectory.Alike before := by
  obtain ⟨front, back, shows, shows', offset, size⟩ := reorders.shows
  obtain ⟨search, small, start, length, count, stop, block⟩ :=
    Sections.locate_eq_ok_iff.1 reorders.located
  rw [offset] at block
  obtain ⟨before, block', alike⟩ := SigningBlock.find_alike shows shows' block
  refine ⟨before, Sections.locate_eq_ok_iff.2 ⟨?_, small, start, length, count, stop, ?_⟩, alike⟩
  · -- The end record stands after the directory, and what follows the directory is the same.
    rw [← List.append_assoc] at shows shows'
    have place : sections.endOffset = (front ++ Directory.encode records).length := by
      rw [← stop, offset, size, List.length_append]
    have place' : sections.endOffset = (front ++ Directory.encode records').length := by
      rw [place, List.length_append, List.length_append,
        Directory.length_encode_of_perm reorders.perm]
    have last := (EndRecord.find_eq_ok_some_iff shows).1 search
    have alone := last.of_drop (Nat.le_of_eq place.symm)
    rw [List.drop_left, place, Nat.sub_self] at alone
    have last' : EndRecord.IsLast (front ++ Directory.encode records' ++ back) _ _ :=
      alone.of_append
    rw [Nat.add_zero, ← place'] at last'
    exact (EndRecord.find_eq_ok_some_iff shows').2 last'
  · rw [offset]
    exact block'

theorem symm (reorders : apk.Reorders apk' sections records records') :
    ∃ before, apk'.Reorders apk { sections with beforeDirectory := before } records' records := by
  obtain ⟨before, located, -⟩ := reorders.exists_located
  obtain ⟨front, back, shows, shows', offset, size⟩ := reorders.shows
  refine ⟨before, located, reorders.perm.symm, front, back, shows', shows, offset, ?_⟩
  rw [← Directory.length_encode_of_perm reorders.perm]
  exact size

variable {before : SigningBlock.Search}

/-- If the directory is read, so is the other one. -/
theorem readDirectory (reorders : apk.Reorders apk' sections records records') {directory : Bytes}
    (read : sections.readDirectory apk = .ok directory) :
    directory = Directory.encode records ∧
      Sections.readDirectory { sections with beforeDirectory := before } apk' =
        .ok (Directory.encode records') := by
  obtain ⟨front, back, shows, shows', offset, size⟩ := reorders.shows
  obtain ⟨small, read⟩ := Sections.readDirectory_eq_ok_iff.1 read
  obtain ⟨-, -, -, rfl⟩ := View.read_eq_ok_iff.1 read
  have same := Directory.length_encode_of_perm reorders.perm
  have has : apk.Has sections.directoryOffset (Directory.encode records) := by
    rw [offset]
    exact shows.has rfl
  have has' : apk'.Has sections.directoryOffset (Directory.encode records') := by
    rw [offset]
    exact shows'.has rfl
  refine ⟨?_, Sections.readDirectory_eq_ok_iff.2 ⟨small, ?_⟩⟩
  · rw [size]
    exact has
  · have read' := shows'.read sections.directoryOffset sections.directorySize (by
      rw [offset, size, same, List.length_append, List.length_append]
      omega) small
    dsimp only
    rw [read', size, same]
    exact congrArg Except.ok has'

/-- If the records of the directory are read, so are the others, in their order. -/
theorem parse (reorders : apk.Reorders apk' sections records records') {count offset : Nat}
    {listed : List DirectoryRecord}
    (parsed : Directory.parse count offset (Directory.encode records) = .ok listed) :
    listed = records ∧ (Directory.names records).Nodup ∧
      Directory.parse count offset (Directory.encode records') = .ok records' := by
  obtain ⟨same, length, distinct⟩ := Directory.parse_eq_ok_iff.1 parsed
  obtain rfl := Directory.encode_inj same
  refine ⟨rfl, distinct, Directory.parse_eq_ok_iff.2 ⟨rfl, ?_, ?_⟩⟩
  · rw [← reorders.perm.length_eq, length]
  · exact (reorders.perm.map _).nodup_iff.1 distinct

/-- The entries are the same. -/
theorem slice (reorders : apk.Reorders apk' sections records records')
    (alike : sections.beforeDirectory.Alike before) {entries : View}
    (sliced : apk.slice 0 sections.entriesSize = .ok entries) :
    ∃ entries', apk'.slice 0
        (Sections.entriesSize { sections with beforeDirectory := before }) = .ok entries' ∧
      entries.Alike entries' := by
  have same : Sections.entriesSize { sections with beforeDirectory := before } =
      sections.entriesSize := by
    unfold Sections.entriesSize Sections.signingBlock?
    dsimp only
    generalize sections.beforeDirectory = found at alike
    cases alike <;> rfl
  obtain ⟨front, back, shows, shows', offset, size⟩ := reorders.shows
  have inside : 0 + sections.entriesSize ≤ front.length := by
    rw [Nat.zero_add, ← offset]
    exact Sections.entriesSize_le reorders.located
  obtain ⟨part, cut, shown⟩ := shows.slice_front inside
  obtain ⟨part', cut', shown'⟩ := shows'.slice_front inside
  cases cut.symm.trans sliced
  rw [same]
  exact ⟨part', cut', _, shown, shown'⟩

end View.Reorders
end ApkArchive

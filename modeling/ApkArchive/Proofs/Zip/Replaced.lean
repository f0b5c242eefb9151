import ApkArchive.Alignment.Policy
import ApkArchive.Proofs.Zip.Consistency
import ApkArchive.Proofs.Zip.Emission

/-!
# Local records with another extra field

Where a record is copied with another extra field, the bytes that a plain copy writes are written
with the field replaced and its size patched in the header:

    copy writes old → copyWithExtra extra writes found.replaceExtra old extra

These bytes are located wherever they stand, and what is found there differs from the record in the
place, the extra field and the size only. Name, data and data descriptor are the same bytes, and so
the data is read in the same way.
-/

namespace ApkArchive.LocalRecord

open ApkArchive.Alignment

/-- The bytes of a record with another extra field. The size of the field ends the header. -/
def replaceExtra (found : LocalRecord) (bytes extra : Bytes) : Bytes :=
  bytes.take LocalHeader.extraSizeOffset ++ (Bytes.word16 (UInt16.ofNat extra.length) ++
    ((bytes.drop LocalHeader.fixedSize).take found.nameSize ++
      (extra ++ bytes.drop found.dataStart)))

namespace Layout

variable {record : DirectoryRecord} (layout : Layout record)

theorem drop_dataStart :
    layout.bytes.drop layout.found.dataStart = layout.data ++ layout.descriptor := by
  have front : (layout.header.encode ++ (record.nameBytes ++ layout.extra)).length =
      layout.found.dataStart := by
    rw [List.length_append, List.length_append, LocalHeader.length_encode, dataStart_found,
      Nat.add_assoc]
  have split : layout.bytes = (layout.header.encode ++ (record.nameBytes ++ layout.extra)) ++
      (layout.data ++ layout.descriptor) := by
    simp only [bytes, List.append_assoc]
  rw [split, List.drop_left' front]

/-- The bytes of a layout with the extra field replaced are those of the layout with this field. -/
theorem replaceExtra_bytes (extra : Bytes) (fits : extra.length < 65536) :
    layout.found.replaceExtra layout.bytes extra = (layout.withExtra extra fits).bytes := by
  have header : layout.bytes.take LocalHeader.extraSizeOffset =
      layout.header.encode.take LocalHeader.extraSizeOffset :=
    List.take_append_of_le_length (by rw [LocalHeader.length_encode]; decide)
  have name : (layout.bytes.drop LocalHeader.fixedSize).take layout.found.nameSize =
      record.nameBytes := by
    rw [bytes, List.drop_left' layout.header.length_encode]
    exact List.take_left
  rw [replaceExtra, header, name, drop_dataStart, ← List.append_assoc,
    ← LocalHeader.encode_withExtraSize]
  rfl

variable {entries : View}

/-- What a copy of a located record writes is its layout, all of which can be read. -/
theorem of_delivers_copy {n : Nat} {old : Bytes}
    (has : entries.Has record.localOffset.toNat layout.bytes)
    (copied : Sink.Delivers (layout.found.copy entries) n old) :
    n = layout.bytes.length ∧ old = layout.bytes ∧ Placed entries record layout := by
  have isOpen : Sink.Open {} := fun _ _ _ => rfl
  obtain ⟨sink, run, -, wrote⟩ := copied isOpen
  obtain ⟨rfl, wrote'⟩ := emits_copy layout.found entries run
  obtain ⟨_, _, fed, _⟩ := run_bind_eq_ok_iff.1 run
  obtain ⟨inside, holds⟩ := View.holds_of_feed fed
  have same : old = layout.bytes := by
    rw [wrote', List.append_cancel_left_eq] at wrote
    exact wrote.symm.trans has
  exact ⟨rfl, same, inside, holds, has⟩

section WithExtra

variable {extra : Bytes} (fits : extra.length < 65536)

/-! ### Writing -/

/-- The patched front, and what is streamed behind it. -/
theorem bytes_withExtra :
    (layout.withExtra extra fits).header.encode ++ record.nameBytes ++ extra ++
      ((layout.data ++ layout.descriptor) ++ []) = (layout.withExtra extra fits).bytes := by
  simp only [bytes, withExtra, List.append_assoc, List.append_nil]

theorem delivers_copyWithExtra (placed : Placed entries record layout) :
    Sink.Delivers (layout.found.copyWithExtra entries extra)
      (layout.withExtra extra fits).bytes.length (layout.withExtra extra fits).bytes := by
  rw [layout.copyWithExtra_eq placed fits, ← bytes_withExtra]
  exact (Sink.delivers_write _).bind ((Sink.delivers_stream _).bind (Sink.delivers_pure _))

theorem emits_copyWithExtra (placed : Placed entries record layout) :
    Sink.Emits (layout.found.copyWithExtra entries extra)
      (layout.withExtra extra fits).bytes.length (layout.withExtra extra fits).bytes := by
  rw [layout.copyWithExtra_eq placed fits, ← bytes_withExtra]
  exact (Sink.emits_write _).bind ((Sink.emits_stream _).bind (Sink.emits_pure _))

/-! ### Reading back -/

/-- What is found of a layout with another extra field and at another place. -/
theorem found_withExtra (offset : UInt32) :
    ((layout.withExtra extra fits).move offset).found = { layout.found with
      extra
      start := offset.toNat
      size := layout.found.size - layout.found.extra.length + extra.length } := by
  have size : (layout.withExtra extra fits).bytes.length =
      layout.found.size - layout.found.extra.length + extra.length := by
    have length := layout.length_bytes
    rw [length_bytes]
    show _ = layout.bytes.length - layout.extra.length + extra.length
    simp only [withExtra]
    omega
  rw [← size]
  rfl

/-- The data is the same, so it is written in the same way. -/
theorem emitData_withExtra {entries' : View} {offset : UInt32}
    (placed : Placed entries record layout)
    (placed' : Placed entries' (record.withLocalOffset offset)
      ((layout.withExtra extra fits).move offset)) :
    ((layout.withExtra extra fits).move offset).found.emitData entries' =
      layout.found.emitData entries :=
  emitData_congr rfl rfl rfl (placed'.feed.trans placed.feed.symm)

end WithExtra

end Layout

/-- A record that was copied with another extra field can be copied as it is. -/
theorem exists_delivers_copy {entries : View} {record : DirectoryRecord} {directory : Nat}
    {found : LocalRecord} (located : locate entries record directory = .ok found) {extra : Bytes}
    {sink sink' : Sink} {n : Nat} (run : found.copyWithExtra entries extra sink = .ok n sink') :
    Sink.Delivers (found.copy entries) found.size (entries.bytes found.start found.size) := by
  have front := holds_of_locate located
  obtain ⟨layout, rfl, -, -⟩ := locate_sound located
  have room := layout.dataStart_le
  have size : layout.found.size = layout.bytes.length := rfl
  unfold copyWithExtra at run
  split at run
  · cases run
  obtain ⟨_, _, run⟩ := run_ofExcept_eq_ok_iff.1 run
  obtain ⟨_, _, _, run⟩ := run_bind_eq_ok_iff.1 run
  obtain ⟨_, _, fed, _⟩ := run_bind_eq_ok_iff.1 run
  -- What was read for the header reaches to the data, and the data was fed.
  obtain ⟨inside, back⟩ := View.holds_of_feed fed
  have whole := front.append back
  rw [Nat.add_sub_of_le (by omega)] at whole
  exact delivers_copy (show layout.found.start + layout.found.size ≤ entries.size by omega) whole

/-- A record that was located is copied with another extra field exactly if the field is not too
large and the record can be copied as it is. Then the bytes are those of the plain copy with the
field replaced and its size in the header, and they are the same if the field is. Wherever these
bytes stand, they are located as the same record with another place, extra field and size; data and
data descriptor follow where the plan says, and the data is written in the same way. -/
theorem replaced_extra_is_located {entries : View} {record : DirectoryRecord} {directory : Nat}
    {found : LocalRecord} (located : locate entries record directory = .ok found) (extra : Bytes) :
    (65535 < extra.length → ∀ sink, found.copyWithExtra entries extra sink =
      .error (.fault (.extraTooLarge found.name extra.length)) sink) ∧
    (∀ sink sink' m, found.copyWithExtra entries extra sink = .ok m sink' →
      ∃ n old, Sink.Delivers (found.copy entries) n old) ∧
    (extra.length ≤ 65535 → ∀ {n : Nat} {old : Bytes}, Sink.Delivers (found.copy entries) n old →
      let new := found.replaceExtra old extra
      n = old.length ∧
      Sink.Delivers (found.copyWithExtra entries extra) new.length new ∧
      Sink.Emits (found.copyWithExtra entries extra) new.length new ∧
      (extra = found.extra → new = old) ∧
      ∀ (entries' : View) (offset : UInt32) (directory' : Nat), entries'.Has offset.toNat new →
        entries'.Holds offset.toNat new.length → offset.toNat + new.length ≤ directory' →
        directory' ≤ entries'.size →
        ∃ moved, locate entries' (record.withLocalOffset offset) directory' = .ok moved ∧
          moved = { found with
            extra
            start := offset.toNat
            size := found.size - found.extra.length + extra.length } ∧
          moved.size = new.length ∧
          moved.dataStart = found.dataStart - found.extra.length + extra.length ∧
          (∀ alignment, moved.dataStart = (Plan.realign alignment extra).dataStart found) ∧
          new.drop moved.dataStart = old.drop found.dataStart ∧
          moved.emitData entries' = found.emitData entries) := by
  obtain ⟨layout, rfl, -, has⟩ := locate_sound located
  refine ⟨?_, fun _ _ _ run => ⟨_, _, exists_delivers_copy located run⟩, ?_⟩
  · intro large sink
    unfold copyWithExtra
    rw [if_pos (by omega)]
    rfl
  intro small n old copied
  have fits : extra.length < 65536 := Nat.lt_succ_of_le small
  obtain ⟨rfl, rfl, placed⟩ := layout.of_delivers_copy has copied
  dsimp only
  rw [layout.replaceExtra_bytes extra fits]
  refine ⟨rfl, layout.delivers_copyWithExtra fits placed, layout.emits_copyWithExtra fits placed,
    fun same => by rw [layout.withExtra_eq_self same fits], ?_⟩
  intro entries' offset directory' has' held' inside' bounded
  have placed' : Placed entries' (record.withLocalOffset offset)
      ((layout.withExtra extra fits).move offset) := ⟨Nat.le_trans inside' bounded, held', has'⟩
  refine ⟨_, placed'.locate_eq inside' bounded, layout.found_withExtra fits offset, rfl, ?_,
    fun _ => rfl, ?_, layout.emitData_withExtra fits placed placed'⟩
  · rw [dataStart, dataStart, Nat.add_sub_cancel]
    rfl
  · rw [layout.drop_dataStart]
    exact ((layout.withExtra extra fits).move offset).drop_dataStart

/-- What is found of the entry in `sampleBytes`. -/
def sampleFound : LocalRecord where
  name := "n"
  nameSize := 1
  extra := [0, 0, 0, 0]
  start := 1
  size := 53
  dataSize := 2
  method := .stored
  uncompressedSize := 2

/-- Its extra field is replaced by a longer one, and the bytes are put at offset 3. The data
descriptor, which is as long as its own first bytes say, comes after the data as before. -/
theorem described_entry_is_relocated :
    let apk := View.ofBytes sampleBytes
    let extra : Bytes := [9, 0, 1, 0, 7]
    let new : Bytes :=
      (sampleBytes.drop 1).take 28 ++ ([5, 0] ++ ([0x6E] ++ (extra ++ sampleBytes.drop 36)))
    let apk' := View.ofBytes ([5, 5, 5] ++ (new ++ [6]))
    locate apk sampleRecord 54 = .ok sampleFound ∧
      Sink.Delivers (sampleFound.copy apk) 53 (sampleBytes.drop 1) ∧
      Sink.Delivers (sampleFound.copyWithExtra apk extra) 54 new ∧
      (∃ moved, locate apk' (sampleRecord.withLocalOffset 3) 57 = .ok moved ∧
        moved = { sampleFound with extra, start := 3, size := 54 } ∧
        moved.emitData apk' = sampleFound.emitData apk) ∧
      sampleFound.copyWithExtra apk (Bytes.zeros 65536) {} =
        .error (.fault (.extraTooLarge "n" 65536)) {} := by
  intro apk extra new apk'
  have shows : apk.Shows sampleBytes := View.shows_ofBytes sampleBytes
  have shows' : apk'.Shows ([5, 5, 5] ++ (new ++ [6])) := View.shows_ofBytes _
  have located : locate apk sampleRecord 54 = .ok sampleFound := by
    have run : (locate apk sampleRecord 54).toOption = some sampleFound := by decide +kernel
    cases result : locate apk sampleRecord 54 with
    | ok found =>
      rw [result] at run
      exact congrArg Except.ok (Option.some.inj run)
    | error error =>
      rw [result] at run
      cases run
  have copied : Sink.Delivers (sampleFound.copy apk) 53 (sampleBytes.drop 1) := by
    have whole : apk.bytes 1 53 = sampleBytes.drop 1 := shows.bytes_eq (by decide)
    rw [← whole]
    exact delivers_copy (Nat.le_of_eq shows.size.symm) (shows.holds_range (by decide))
  have written : sampleFound.replaceExtra (sampleBytes.drop 1) extra = new := by decide
  have length : new.length = 54 := by decide
  obtain ⟨-, -, replaced⟩ := replaced_extra_is_located located extra
  obtain ⟨-, wrote, -, -, back⟩ := replaced (by decide) copied
  rw [written, length] at wrote back
  obtain ⟨moved, found, same, -, -, -, -, data⟩ := back apk' 3 57 (shows'.has rfl)
    (shows'.holds_range (by decide)) (by decide) (by rw [shows'.size]; decide)
  obtain ⟨refused, -⟩ := replaced_extra_is_located located (Bytes.zeros 65536)
  rw [Bytes.length_zeros] at refused
  exact ⟨located, copied, wrote, ⟨moved, found, same, data⟩, refused (by decide) {}⟩

end ApkArchive.LocalRecord

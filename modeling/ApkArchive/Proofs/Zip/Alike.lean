import ApkArchive.Proofs.Zip.Emission

/-!
# Views that show the same bytes

What is read through a view depends on the bytes that it shows, and not on where they are stored.
Requests outside of it fail alike, too. So whatever is done with one of two such views, locating a
local record or writing it, is what is done with the other one.
-/

namespace ApkArchive

namespace View

/-- Two views show the same bytes, all of which can be read. -/
def Alike (view view' : View) : Prop := ∃ bytes, view.Shows bytes ∧ view'.Shows bytes

namespace Alike

variable {view view' : View}

theorem size_eq (alike : view.Alike view') : view.size = view'.size := by
  obtain ⟨bytes, shows, shows'⟩ := alike
  rw [shows.size, shows'.size]

theorem bytes_eq (alike : view.Alike view') :
    view.bytes 0 view.size = view'.bytes 0 view'.size := by
  obtain ⟨bytes, shows, shows'⟩ := alike
  rw [shows.contents, shows'.contents]

theorem checkRange_eq (alike : view.Alike view') : view.checkRange = view'.checkRange := by
  funext offset n
  unfold checkRange
  rw [alike.size_eq]

/-- Inside of the views the same bytes are held, and outside of them nothing is read. -/
theorem readExact_eq (alike : view.Alike view') {offset n : Nat} (inside : offset + n ≤ view.size) :
    view.store.readExact (view.offset + offset) n =
      view'.store.readExact (view'.offset + offset) n := by
  obtain ⟨bytes, shows, shows'⟩ := alike
  rw [shows.size] at inside
  rw [Store.readExact_eq_ok_iff.2 ⟨shows.holds_range inside, rfl⟩,
    Store.readExact_eq_ok_iff.2 ⟨shows'.holds_range inside, rfl⟩]
  exact congrArg Except.ok ((shows.bytes_eq inside).trans (shows'.bytes_eq inside).symm)

theorem copy_eq (alike : view.Alike view') : view.copy = view'.copy := by
  funext offset n
  unfold copy
  rw [alike.checkRange_eq]
  cases checked : view'.checkRange offset n with
  | error error => rfl
  | ok _ =>
    have inside := checkRange_eq_ok_iff.1 checked
    exact alike.readExact_eq (alike.size_eq ▸ inside)

theorem read_eq (alike : view.Alike view') : view.read = view'.read := by
  funext offset n
  unfold read
  rw [alike.checkRange_eq, alike.size_eq]
  cases checked : view'.checkRange offset n with
  | error error => rfl
  | ok _ =>
    have inside := checkRange_eq_ok_iff.1 checked
    have same := alike.readExact_eq (alike.size_eq ▸ inside)
    show (if maxBufferSize < n then _ else _) = (if maxBufferSize < n then _ else _)
    rw [same]

theorem feed_eq (alike : view.Alike view') : view.feed = view'.feed := by
  funext offset n
  by_cases inside : offset + n ≤ view.size
  · have inside' := inside
    rw [alike.size_eq] at inside'
    obtain ⟨bytes, shows, shows'⟩ := alike
    rw [feed_of_holds inside (shows.holds_range (shows.size ▸ inside)),
      feed_of_holds inside' (shows'.holds_range (shows'.size ▸ inside')),
      shows.bytes_eq (shows.size ▸ inside), shows'.bytes_eq (shows'.size ▸ inside')]
  · have outside : ¬ offset + n ≤ view'.size := alike.size_eq ▸ inside
    rw [View.feed_eq, View.feed_eq, checkRange, checkRange, if_neg inside, if_neg outside,
      alike.size_eq]
    rfl

end Alike
end View

namespace LocalHeader

theorem encode_inj {header header' : LocalHeader} (same : header.encode = header'.encode) :
    header = header' := by
  have first : read.run header.encode = some (header, []) :=
    run_read_eq_some_iff.2 (List.append_nil _).symm
  have second : read.run header'.encode = some (header', []) :=
    run_read_eq_some_iff.2 (List.append_nil _).symm
  rw [same, second] at first
  cases first
  rfl

end LocalHeader

namespace LocalRecord

variable {entries entries' : View}

theorem locate_of_alike (alike : entries.Alike entries') : locate entries = locate entries' := by
  funext record directory
  unfold locate descriptorStop
  rw [alike.read_eq, alike.copy_eq]

theorem copy_of_alike (found : LocalRecord) (alike : entries.Alike entries') :
    found.copy entries = found.copy entries' := by
  unfold copy
  rw [alike.feed_eq]

theorem copyWithExtra_of_alike (found : LocalRecord) (alike : entries.Alike entries') :
    found.copyWithExtra entries = found.copyWithExtra entries' := by
  funext extra
  unfold copyWithExtra
  rw [alike.copy_eq, alike.feed_eq]

theorem emitData_of_alike (found : LocalRecord) (alike : entries.Alike entries') :
    found.emitData entries = found.emitData entries' :=
  emitData_congr rfl rfl rfl (congrFun (congrFun alike.feed_eq _) _)

/-- Two records that point to the same local record have the same name. -/
theorem nameBytes_of_same_offset {record record' : DirectoryRecord} {found found' : LocalRecord}
    (located : locate entries record entries.size = .ok found)
    (located' : locate entries record' entries.size = .ok found')
    (same : record.localOffset = record'.localOffset) : record.nameBytes = record'.nameBytes := by
  obtain ⟨layout, rfl, -, has⟩ := locate_sound located
  obtain ⟨layout', rfl, -, has'⟩ := locate_sound located'
  rw [same] at has
  obtain ⟨front, rest⟩ := View.has_append_iff.1 has
  obtain ⟨front', rest'⟩ := View.has_append_iff.1 has'
  rw [View.Has, LocalHeader.length_encode] at front front'
  have header : layout.header = layout'.header :=
    LocalHeader.encode_inj (front.symm.trans front')
  -- The header says how long the name is that follows it.
  have length : record.nameBytes.length = record'.nameBytes.length := by
    rw [← layout.nameSize, ← layout'.nameSize, header]
  have name := (View.has_append_iff.1 rest).1
  have name' := (View.has_append_iff.1 rest').1
  rw [View.Has, LocalHeader.length_encode] at name name'
  rw [← name, ← name', length]

end LocalRecord
end ApkArchive

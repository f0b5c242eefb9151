import ApkArchive.Proofs.Zip.Faults
import ApkArchive.Proofs.Zip.FileOrder
import ApkArchive.Proofs.Zip.LocalRecord

/-!
# Which record is to blame

Where all bytes of the entries can be read, an entry is located or its record is to blame: the
error is a fault, and its place is the offset to which the record points. Whoever visits the
entries in file order and stops at the first error blames the record with the least offset, and of
records with the same offset the one that comes first in the directory.

    Blamed records entries number record fault ↔
      file order = front ++ (record, number) :: back, all of front is located, and record is not
-/

namespace ApkArchive

/-! ### A single record -/

/-- The error is not blamed on a record that points to the offset. -/
def Error.isElsewhere (start : Nat) : Error → Bool
  | format _ ⟨none, some offset⟩ => offset ≠ start
  | _ => true

theorem Error.isElsewhere_eq_false_iff {start : Nat} {error : Error} :
    error.isElsewhere start = false ↔ ∃ fault, error = .faultAt start fault := by
  unfold isElsewhere
  split
  · next fault offset =>
    rw [decide_eq_false_iff_not, Decidable.not_not]
    constructor
    · rintro rfl
      exact ⟨fault, rfl⟩
    · rintro ⟨_, ⟨⟩⟩
      rfl
  · next other =>
    constructor
    · intro h; cases h
    · rintro ⟨fault, rfl⟩
      exact absurd rfl (other fault start)

namespace LocalRecord

variable {entries : View} {bytes : Bytes}

theorem excludes_blame {start : Nat} (result : Except Fault α) :
    Excludes (Error.isElsewhere start) (result.mapError (Error.faultAt start)) := by
  cases result with
  | ok a => exact .ok a
  | error fault => exact .error (Error.isElsewhere_eq_false_iff.2 ⟨fault, rfl⟩)

/-- After a check that blames the record, what was checked is known. -/
theorem excludes_blame_unless {c : Prop} [Decidable c] {start : Nat} {fault : Fault}
    {x : Except Error α} (rest : ¬ c → Excludes (Error.isElsewhere start) x) :
    Excludes (Error.isElsewhere start) (if c then (do
      (throw fault : Except Fault PUnit).mapError (Error.faultAt start)
      x) else x) := by
  by_cases wrong : c
  · rw [if_pos wrong]
    exact .error (Error.isElsewhere_eq_false_iff.2 ⟨fault, rfl⟩)
  · rw [if_neg wrong]
    exact rest wrong

/-- Reading what is there is not an error. -/
theorem excludes_of_eq_ok {p : Error → Bool} {x : Except Error α} {a : α} (run : x = .ok a) :
    Excludes p x := run ▸ .ok a

theorem excludes_descriptorStop_of_shows (shows : entries.Shows bytes) {p : Error → Bool}
    (name : String) {dataStop directory : Nat} (bounded : directory ≤ bytes.length) :
    Excludes p (descriptorStop entries name dataStop directory) := by
  unfold descriptorStop
  dsimp only
  split
  · exact .ok _
  next room =>
  simp only [descriptorSize] at room
  have size := shows.size
  have sign : entries.copy dataStop 4 = .ok (entries.bytes dataStop 4) :=
    View.copy_eq_ok_iff.2 ⟨by omega, shows.holds_range (by omega), rfl⟩
  refine (excludes_of_eq_ok sign).bind fun _ => ?_
  exact .ite (.ok _) (.ite (.ok _) (.ok _))

/-- Every range that is read lies before the directory, as it was checked; so what can fail are the
checks, and these blame the record. -/
theorem excludes_locate_of_shows (shows : entries.Shows bytes) (record : DirectoryRecord)
    {directory : Nat} (bounded : directory ≤ bytes.length) :
    Excludes (Error.isElsewhere record.localOffset.toNat) (locate entries record directory) := by
  unfold locate
  dsimp only
  refine excludes_blame_unless fun headerRoom => ?_
  have nameFits : record.nameBytes.length < 65536 := record.nameFits
  simp only [LocalHeader.fixedSize] at headerRoom ⊢
  have front := shows.read record.localOffset.toNat (30 + record.nameBytes.length) (by omega)
    (by simp only [View.maxBufferSize]; omega)
  refine (excludes_of_eq_ok front).bind fun _ => ?_
  split
  · next header nameBytes _ =>
    refine (excludes_blame _).bind fun _ => (excludes_blame _).bind fun _ => ?_
    refine excludes_blame_unless fun dataRoom => ?_
    have extraFits : header.extraSize.toNat < 65536 := header.extraSize.toNat_lt
    have extra := shows.read (record.localOffset.toNat + 30 + header.nameSize.toNat)
      header.extraSize.toNat (by omega) (by simp only [View.maxBufferSize]; omega)
    -- With an extra field or without one, what is left is to find the end of the record.
    refine .ite ((Excludes.pure []).bind fun _ => ?_)
      ((excludes_of_eq_ok extra).bind fun _ => ?_)
    all_goals
      refine .ite ?_ ((Excludes.pure _).bind fun _ => .pure _)
      refine (excludes_descriptorStop_of_shows shows _ bounded).bind fun _ => ?_
      exact (excludes_blame _).bind fun _ => .pure _
  · exact excludes_blame _

end LocalRecord

/-- The entry of a directory record is located. -/
def Located (entries : View) (record : DirectoryRecord) : Prop :=
  ∃ found, LocalRecord.locate entries record entries.size = .ok found

theorem faultAt_of_locate {entries : View} {bytes : Bytes} (shows : entries.Shows bytes)
    {record : DirectoryRecord} {error : Error}
    (failed : LocalRecord.locate entries record entries.size = .error error) :
    ∃ fault, error = .faultAt record.localOffset.toNat fault := by
  have bounded : entries.size ≤ bytes.length := Nat.le_of_eq shows.size
  exact Error.isElsewhere_eq_false_iff.1
    (LocalRecord.excludes_locate_of_shows shows record bounded error failed)

/-! ### All records -/

/-- Of all records whose entries are not located this one points to the least offset, and none with
the same offset comes before it in the directory. -/
structure Blamed (records : List DirectoryRecord) (entries : View) (number : Nat)
    (record : DirectoryRecord) (fault : Fault) : Prop where
  listed : records[number]? = some record
  fails : LocalRecord.locate entries record entries.size =
    .error (.faultAt record.localOffset.toNat fault)
  first : ∀ (place : Nat) (other : DirectoryRecord), records[place]? = some other →
    ¬ Located entries other → record.localOffset.toNat < other.localOffset.toNat ∨
      record.localOffset = other.localOffset ∧ number ≤ place

section Blamed

variable {records : List DirectoryRecord} {entries : View} {number : Nat}
variable {record : DirectoryRecord}

theorem mem_inFileOrder_iff :
    (record, number) ∈ Directory.inFileOrder records ↔ records[number]? = some record := by
  rw [(Directory.inFileOrder_perm records).mem_iff, List.mem_zipIdx_iff_getElem?]

variable {front back : List (DirectoryRecord × Nat)}

/-- The first record in file order whose entry is not located is to blame. -/
theorem blamed_of_split {bytes : Bytes} (shows : entries.Shows bytes)
    (order : Directory.inFileOrder records = front ++ (record, number) :: back)
    (before : ∀ entry ∈ front, Located entries entry.1) {error : Error}
    (failed : LocalRecord.locate entries record entries.size = .error error) :
    ∃ fault, error = .faultAt record.localOffset.toNat fault ∧
      Blamed records entries number record fault := by
  obtain ⟨fault, rfl⟩ := faultAt_of_locate shows failed
  refine ⟨fault, rfl, ?_, failed, ?_⟩
  · rw [← mem_inFileOrder_iff, order]
    exact List.mem_append_right _ (List.mem_cons_self ..)
  · intro place other listed unlocated
    rw [← mem_inFileOrder_iff, order] at listed
    have ascending := Directory.pairwise_inFileOrder records
    have numbered := Directory.pairwise_inFileOrder_number records
    rw [order, List.pairwise_append, List.pairwise_cons] at ascending numbered
    rcases List.mem_append.1 listed with earlier | later
    · exact absurd (before _ earlier) unlocated
    rcases List.mem_cons.1 later with same | later
    · cases same
      exact .inr ⟨rfl, Nat.le_refl _⟩
    · by_cases same : record.localOffset = other.localOffset
      · exact .inr ⟨same, Nat.le_of_lt (numbered.2.1.1 _ later same)⟩
      · have le := ascending.2.1.1 _ later
        refine .inl (Nat.lt_of_le_of_ne le fun equal => same ?_)
        exact UInt32.toNat_inj.1 equal

/-- All records before the one to blame are located. -/
theorem Blamed.exists_split {fault : Fault} (blamed : Blamed records entries number record fault) :
    ∃ front back, Directory.inFileOrder records = front ++ (record, number) :: back ∧
      ∀ entry ∈ front, Located entries entry.1 := by
  obtain ⟨front, back, order⟩ := List.append_of_mem (mem_inFileOrder_iff.2 blamed.listed)
  refine ⟨front, back, order, ?_⟩
  rintro ⟨other, place⟩ mem
  apply Classical.byContradiction
  intro unlocated
  have listed : (other, place) ∈ Directory.inFileOrder records := by
    rw [order]
    exact List.mem_append_left _ mem
  have ascending := Directory.pairwise_inFileOrder records
  have numbered := Directory.pairwise_inFileOrder_number records
  rw [order, List.pairwise_append] at ascending numbered
  have le := ascending.2.2 _ mem _ (List.mem_cons_self ..)
  have less := numbered.2.2 _ mem _ (List.mem_cons_self ..)
  rcases blamed.first place other (mem_inFileOrder_iff.1 listed) unlocated with lower | ⟨same, le'⟩
  · exact absurd le (Nat.not_le.2 lower)
  · exact absurd (less same.symm) (Nat.not_lt.2 le')

end Blamed

end ApkArchive

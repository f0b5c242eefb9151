import ApkArchive.Zip.Directory

/-!
# File order and back

The entries of an archive are visited in file order, and written into the new directory in the
order of the old one. The numbers of the records lead back: they are all different, so sorting by
number has one result only.

    sort by number (inFileOrder records) = records with their numbers
-/

namespace ApkArchive

/-! ### Sorting by a key -/

/-- With increasing keys, an element is determined by its key. -/
theorem eq_of_key_eq {key : α → Nat} {l : List α} (increasing : l.Pairwise fun a b => key a < key b)
    {a b : α} (first : a ∈ l) (second : b ∈ l) (same : key a = key b) : a = b := by
  induction l with
  | nil => cases first
  | cons head rest ih =>
    obtain ⟨least, increasing⟩ := List.pairwise_cons.1 increasing
    rcases List.mem_cons.1 first with rfl | first'
    · rcases List.mem_cons.1 second with rfl | second'
      · rfl
      · exact absurd (least b second') (by omega)
    · rcases List.mem_cons.1 second with rfl | second'
      · exact absurd (least a first') (by omega)
      · exact ih increasing first' second'

theorem pairwise_mergeSort_key (key : α → Nat) (l : List α) :
    (l.mergeSort fun a b => key a ≤ key b).Pairwise fun a b => key a ≤ key b := by
  refine (List.pairwise_mergeSort ?_ ?_ l).imp of_decide_eq_true
  · intro a b c first second
    rw [decide_eq_true_eq] at first second ⊢
    exact Nat.le_trans first second
  · intro a b
    rw [Bool.or_eq_true, decide_eq_true_eq, decide_eq_true_eq]
    exact Nat.le_total _ _

theorem mergeSort_eq_of_increasing {key : α → Nat} {l sorted : List α} (perm : l.Perm sorted)
    (increasing : sorted.Pairwise fun a b => key a < key b) :
    (l.mergeSort fun a b => key a ≤ key b) = sorted := by
  have perm := (List.mergeSort_perm l fun a b => key a ≤ key b).trans perm
  refine perm.eq_of_pairwise ?_ (pairwise_mergeSort_key key l)
    (increasing.imp fun less => Nat.le_of_lt less)
  intro a b first second le ge
  exact eq_of_key_eq increasing (perm.mem_iff.1 first) second (Nat.le_antisymm le ge)

/-! ### The records of a directory -/

namespace Directory

theorem inFileOrder_perm (records : List DirectoryRecord) :
    (inFileOrder records).Perm records.zipIdx := List.mergeSort_perm ..

/-- File order has every record once. -/
theorem map_fst_inFileOrder_perm (records : List DirectoryRecord) :
    ((inFileOrder records).map (·.1)).Perm records := by
  have perm := (inFileOrder_perm records).map (·.1)
  rwa [List.zipIdx_map_fst] at perm

/-- Two records that are listed against the order of their entries. -/
theorem inFileOrder_pair {a b : DirectoryRecord} (less : b.localOffset < a.localOffset) :
    inFileOrder [a, b] = [(b, 1), (a, 0)] := by
  have later : ¬ a.localOffset ≤ b.localOffset := UInt32.not_le.2 less
  simp [inFileOrder, List.mergeSort, later]

theorem mem_iff_exists_mem_inFileOrder {records : List DirectoryRecord}
    {record : DirectoryRecord} :
    record ∈ records ↔ ∃ number, (record, number) ∈ inFileOrder records := by
  rw [← (map_fst_inFileOrder_perm records).mem_iff, List.mem_map, Prod.exists]
  simp only [exists_and_right, exists_eq_right]

/-- In file order, no record points before the one that it follows. -/
theorem pairwise_inFileOrder (records : List DirectoryRecord) :
    (inFileOrder records).Pairwise fun a b =>
      a.1.localOffset.toNat ≤ b.1.localOffset.toNat := by
  refine (List.pairwise_mergeSort ?_ ?_ _).imp fun le => of_decide_eq_true le
  · intro a b c first second
    rw [decide_eq_true_eq] at first second ⊢
    exact UInt32.le_trans first second
  · intro a b
    rw [Bool.or_eq_true, decide_eq_true_eq, decide_eq_true_eq]
    exact UInt32.le_total _ _

/-- Records with the same offset keep their order. -/
theorem filter_inFileOrder (records : List DirectoryRecord) (offset : UInt32) :
    (inFileOrder records).filter (fun entry => entry.1.localOffset = offset) =
      records.zipIdx.filter fun entry => entry.1.localOffset = offset := by
  let here (entry : DirectoryRecord × Nat) : Bool := entry.1.localOffset = offset
  -- They are sorted already, so sorting leaves them as they are, with others in between.
  have sorted : (records.zipIdx.filter here).Sublist (inFileOrder records) := by
    refine List.sublist_mergeSort ?_ ?_ ?_ List.filter_sublist
    · intro a b c first second
      rw [decide_eq_true_eq] at first second ⊢
      exact UInt32.le_trans first second
    · intro a b
      rw [Bool.or_eq_true, decide_eq_true_eq, decide_eq_true_eq]
      exact UInt32.le_total _ _
    · rw [List.pairwise_iff_forall_sublist]
      intro a b both
      have place {entry : DirectoryRecord × Nat} (mem : entry ∈ [a, b]) :
          entry.1.localOffset = offset :=
        of_decide_eq_true (List.mem_filter.1 (both.subset mem)).2
      rw [decide_eq_true_eq, place (List.mem_cons_self ..), place (by simp)]
      exact UInt32.le_refl _
  have among := sorted.filter here
  rw [List.filter_filter] at among
  simp only [Bool.and_self] at among
  exact (among.eq_of_length ((inFileOrder_perm records).filter here).length_eq.symm).symm

theorem pairwise_zipIdx (records : List DirectoryRecord) :
    records.zipIdx.Pairwise fun a b => a.2 < b.2 := by
  have numbers : (records.zipIdx.map (·.2)).Pairwise (· < ·) := by
    rw [List.zipIdx_map_snd]
    exact List.pairwise_lt_range'
  exact List.pairwise_map.1 numbers

/-- In file order, a record with the same offset as one before it comes later in the directory. -/
theorem pairwise_inFileOrder_number (records : List DirectoryRecord) :
    (inFileOrder records).Pairwise fun a b =>
      a.1.localOffset = b.1.localOffset → a.2 < b.2 := by
  rw [List.pairwise_iff_forall_sublist]
  intro a b both same
  have kept : [a, b].filter (fun entry => entry.1.localOffset = b.1.localOffset) = [a, b] := by
    simp [same]
  have both := both.filter fun entry => entry.1.localOffset = b.1.localOffset
  rw [kept, filter_inFileOrder] at both
  exact List.pairwise_iff_forall_sublist.1 (pairwise_zipIdx records)
    (both.trans List.filter_sublist)

theorem mergeSort_inFileOrder (records : List DirectoryRecord) :
    ((inFileOrder records).mergeSort fun a b => a.2 ≤ b.2) = records.zipIdx :=
  mergeSort_eq_of_increasing (inFileOrder_perm records) (pairwise_zipIdx records)

end Directory
end ApkArchive

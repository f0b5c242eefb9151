import ApkArchive.Zip.EntryFields

/-!
# Timestamps are in chronological order

A date packs year, month and day into a word, the year in the highest bits, and a time of day packs
hour, minute and second. So comparing words is comparing years first, then months, and so on:

    a.order < b.order ↔ a.fields < b.fields

The latest of some timestamps is one of them, and none of them is later.
-/

namespace ApkArchive.Timestamp

/-- Year, month, day, hour, minute and second. -/
def fields (stamp : Timestamp) : List Nat :=
  [stamp.ymd.1, stamp.ymd.2.1, stamp.ymd.2.2, stamp.hms.1, stamp.hms.2.1, stamp.hms.2.2]

/-- The fields make up the words, and all but the first one are bounded by their number of bits. -/
theorem order_lt_iff {a b : Timestamp} : a.order < b.order ↔ a.fields < b.fields := by
  have time := a.time.toNat_lt
  have time' := b.time.toNat_lt
  simp only [order, fields, ymd, hms, List.cons_lt_cons_iff, List.not_lt_nil, and_false, or_false]
  omega

/-- One of the timestamps, and none of them is later. -/
def IsLatestOf (stamp : Timestamp) (stamps : List Timestamp) : Prop :=
  stamp ∈ stamps ∧ ∀ other ∈ stamps, ¬ stamp.fields < other.fields

theorem later_eq_or (a b : Timestamp) : a.later b = a ∨ a.later b = b := by
  unfold later
  split <;> simp

theorem order_le_later (a b : Timestamp) :
    a.order ≤ (a.later b).order ∧ b.order ≤ (a.later b).order := by
  unfold later
  split <;> omega

/-- The induction is on the timestamps that are left; so far `stamp` is the latest. -/
theorem foldl_later (stamp : Timestamp) (stamps : List Timestamp) :
    stamps.foldl later stamp ∈ stamp :: stamps ∧
      ∀ other ∈ stamp :: stamps, other.order ≤ (stamps.foldl later stamp).order := by
  induction stamps generalizing stamp with
  | nil => simp
  | cons next rest ih =>
    obtain ⟨mem, bound⟩ := ih (stamp.later next)
    rw [List.foldl_cons]
    constructor
    · rcases List.mem_cons.1 mem with same | mem
      · rw [same]
        rcases later_eq_or stamp next with first | second
        · simp [first]
        · simp [second]
      · simp [mem]
    · have best := bound _ (List.mem_cons_self ..)
      have both := order_le_later stamp next
      intro other mem
      rcases List.mem_cons.1 mem with rfl | mem
      · omega
      · rcases List.mem_cons.1 mem with rfl | later
        · omega
        · exact bound other (List.mem_cons_of_mem _ later)

theorem isLatestOf_of_latest? {stamps : List Timestamp} {stamp : Timestamp}
    (latest : latest? stamps = some stamp) : stamp.IsLatestOf stamps := by
  cases stamps with
  | nil => cases latest
  | cons first rest =>
    cases latest
    obtain ⟨mem, bound⟩ := foldl_later first rest
    refine ⟨mem, ?_⟩
    intro other among earlier
    exact Nat.not_lt.2 (bound other among) (order_lt_iff.2 earlier)

theorem latest?_eq_none_iff {stamps : List Timestamp} : latest? stamps = none ↔ stamps = [] := by
  cases stamps with
  | nil => exact ⟨fun _ => rfl, fun _ => rfl⟩
  | cons first rest => exact ⟨nofun, nofun⟩

theorem order_inj {a b : Timestamp} (same : a.order = b.order) : a = b := by
  obtain ⟨date, time⟩ := a
  obtain ⟨date', time'⟩ := b
  have bound := time.toNat_lt
  have bound' := time'.toNat_lt
  simp only [order] at same
  have dates : date.toNat = date'.toNat := by omega
  have times : time.toNat = time'.toNat := by omega
  rw [UInt16.toNat_inj.1 dates, UInt16.toNat_inj.1 times]

/-- Which timestamp is the latest does not depend on their order. -/
theorem latest?_of_perm {stamps stamps' : List Timestamp} (perm : stamps.Perm stamps') :
    latest? stamps = latest? stamps' := by
  cases stamps with
  | nil => rw [perm.nil_eq]
  | cons first rest =>
    cases stamps' with
    | nil => cases perm.eq_nil
    | cons first' rest' =>
      obtain ⟨mem, bound⟩ := foldl_later first rest
      obtain ⟨mem', bound'⟩ := foldl_later first' rest'
      refine congrArg some (order_inj (Nat.le_antisymm ?_ ?_))
      · exact bound' _ (perm.mem_iff.1 mem)
      · exact bound _ (perm.mem_iff.2 mem')

end ApkArchive.Timestamp

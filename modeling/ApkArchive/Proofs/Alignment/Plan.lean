import ApkArchive.Alignment.Policy

/-!
# Planned records are aligned

A marker takes the zero bytes that it takes to get to the boundary, for every boundary and
whatever stands before it. So the data of a record that is written as planned begins at its
boundary, unless the record was not aligned before and is to be left alone.
-/

namespace ApkArchive

namespace ExtraField

theorem add_paddingTo_mod {alignment : Nat} (positive : 0 < alignment) (offset : Nat) :
    (offset + paddingTo alignment offset) % alignment = 0 := by
  have below : offset % alignment < alignment := Nat.mod_lt _ positive
  have split := Nat.div_add_mod offset alignment
  unfold paddingTo
  rcases Nat.eq_zero_or_pos (offset % alignment) with none_over | some_over
  · rw [none_over, Nat.sub_zero, Nat.mod_self, Nat.add_zero, none_over]
  · have short : alignment - offset % alignment < alignment := by omega
    have whole : offset + (alignment - offset % alignment) =
        alignment * (offset / alignment + 1) := by
      rw [Nat.mul_add, Nat.mul_one]
      omega
    rw [Nat.mod_eq_of_lt short, whole, Nat.mul_mod_right]

/-- An aligning extra field ends at the boundary. -/
theorem align_mod {alignment : UInt16} (many : 1 < alignment.toNat) (extra : Bytes)
    (offset : Nat) : (offset + (align extra offset alignment).length) % alignment.toNat = 0 := by
  -- The padding is computed for the place where it begins.
  have size : offset + (align extra offset alignment).length =
      (offset + (kept extra).length + SubField.markerSize) +
        paddingTo alignment.toNat (offset + (kept extra).length + SubField.markerSize) := by
    rw [align, if_neg (Nat.not_le.2 many)]
    simp only [SubField.marker, SubField.encode, List.length_append, Bytes.length_word16,
      Bytes.length_zeros, SubField.markerSize]
    omega
  rw [size, add_paddingTo_mod (by omega)]

end ExtraField

namespace Alignment

/-- The extra field of a record that is written as planned. -/
def Plan.extraField (plan : Plan) (record : LocalRecord) : Bytes :=
  match plan with
  | unchanged => record.extra
  | realign _ extra => extra

/-- How many bytes of a record are written as planned: only what comes before its data changes. -/
def Plan.size (plan : Plan) (record : LocalRecord) : Nat :=
  plan.dataStart record + (record.size - record.dataStart)

theorem Plan.dataStart_eq (plan : Plan) (record : LocalRecord) :
    plan.dataStart record = record.extraStart + (plan.extraField record).length := by
  cases plan <;> rfl

namespace Policy

variable {policy : Policy} {record : LocalRecord} {offset : Nat}

/-- The boundary of the data of a record. -/
def boundary (policy : Policy) (record : LocalRecord) : Nat :=
  (policy.alignmentFor record.name record.isCompressed).toNat

theorem boundary_of_isCompressed (policy : Policy) (compressed : record.isCompressed = true) :
    policy.boundary record = 1 := by
  rw [boundary, alignmentFor, compressed, Bool.true_or, if_pos rfl]
  rfl

theorem boundary_pos (policy : Policy) (record : LocalRecord) : 0 < policy.boundary record := by
  unfold boundary alignmentFor
  split
  · decide
  next aligned =>
  split
  · decide
  · rw [Bool.or_eq_true, decide_eq_true_eq, not_or] at aligned
    apply Nat.pos_of_ne_zero
    intro zero
    exact aligned.2 (UInt16.toNat_inj.1 zero)

/-- Data that may be moved, or that is at its boundary already, gets to it. -/
theorem plan_aligned (many : 1 < policy.boundary record)
    (free : policy.preserve = false ∨
      (record.start + record.dataStart) % policy.boundary record = 0) :
    (offset + (policy.plan record offset).dataStart record) % policy.boundary record = 0 := by
  unfold boundary at many free ⊢
  unfold plan
  dsimp only
  rw [if_neg (Nat.not_le.2 many)]
  split
  · next lucky => exact lucky
  split
  · next left_alone =>
    rw [Bool.and_eq_true, decide_eq_true_eq] at left_alone
    rcases free with moved | aligned
    · rw [moved] at left_alone
      cases left_alone.1
    · exact absurd aligned left_alone.2
  · rw [Plan.dataStart, ← Nat.add_assoc]
    exact ExtraField.align_mod many _ _

/-- Data that was not at its boundary is left where it is if that is wanted. -/
theorem plan_unchanged (preserved : policy.preserve = true)
    (unaligned : (record.start + record.dataStart) % policy.boundary record ≠ 0) :
    policy.plan record offset = .unchanged := by
  unfold plan
  dsimp only
  split
  · rfl
  split
  · rfl
  · rw [if_pos (by rw [preserved, Bool.true_and, decide_eq_true_eq]; exact unaligned)]

/-- A record is written with another extra field exactly if the plan is to align it: the old field
ends beside the boundary, and the new one at it. -/
theorem plan_eq_unchanged_iff :
    policy.plan record offset = .unchanged ↔
      (policy.plan record offset).extraField record = record.extra := by
  constructor
  · intro stays
    rw [stays]
    rfl
  · intro same
    unfold plan at same ⊢
    dsimp only at same ⊢
    split
    · rfl
    next many =>
    rw [if_neg many] at same
    split
    · rfl
    next beside =>
    rw [if_neg beside] at same
    split
    · rfl
    next moves =>
    rw [if_neg moves] at same
    have reached := ExtraField.align_mod (Nat.lt_of_not_le many) record.extra
      (offset + record.extraStart)
    have same : ExtraField.align record.extra (offset + record.extraStart)
        (policy.alignmentFor record.name record.isCompressed) = record.extra := same
    rw [same, Nat.add_assoc] at reached
    exact absurd reached beside

end Policy
end Alignment
end ApkArchive

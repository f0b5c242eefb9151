import Mathlib.Order.Bounds.Defs
import ApkArchive.Proofs.Alignment.Plan
import ApkArchive.Proofs.Bytes.Field

/-!
# What an aligning extra field is made of

A sub-field is well-formed if its size fits into the word for it. Any bytes begin with a longest
sequence of well-formed sub-fields, and this is what is parsed:

    LongestFront bytes fields ↔ parseAll bytes = fields

An aligning extra field is the sub-fields that stay, and one marker after them with the least
padding that reaches the boundary. If it is short enough for a local header then the marker is
well-formed, so that all of the field is parsed again. The marker is padding, and what stays of the
field is what stayed before. So a second alignment is done as if there had been no first one.
-/

namespace ApkArchive

namespace SubField

/-! ### The longest well-formed front -/

/-- The size of the sub-field can be told from its bytes. -/
def Sized (field : SubField) : Prop := field.payload.length < 65536

/-- The bytes of some sub-fields. -/
def encodeAll (fields : List SubField) : Bytes := fields.flatMap encode

/-- `fields` are the sub-fields of the longest part at the front of `bytes` that is made of
well-formed sub-fields. -/
structure LongestFront (bytes : Bytes) (fields : List SubField) : Prop where
  sized : ∀ field ∈ fields, field.Sized
  front : encodeAll fields <+: bytes
  longest : ∀ others : List SubField, (∀ field ∈ others, field.Sized) →
    encodeAll others <+: bytes → others <+: fields

theorem encodeAll_cons (field : SubField) (fields : List SubField) :
    encodeAll (field :: fields) = field.encode ++ encodeAll fields := List.flatMap_cons

theorem encodeAll_append (fields fields' : List SubField) :
    encodeAll (fields ++ fields') = encodeAll fields ++ encodeAll fields' := List.flatMap_append

theorem encodeAll_singleton (field : SubField) : encodeAll [field] = field.encode :=
  List.flatMap_singleton ..

theorem length_encode (field : SubField) : field.encode.length = 4 + field.payload.length := by
  simp only [encode, List.length_append, Bytes.length_word16]
  omega

theorem parseAll_encode_append {field : SubField} (sized : field.Sized) (rest : Bytes) :
    parseAll (field.encode ++ rest) = field :: parseAll rest := by
  have run : read.run (field.encode ++ rest) = some (field, rest) :=
    run_read_eq_some_iff.2 ⟨rfl, sized⟩
  rw [parseAll]
  split
  · next stuck => cases stuck.symm.trans run
  · next found =>
    cases found.symm.trans run
    rfl

theorem parseAll_nil : parseAll [] = [] := by
  rw [parseAll]
  rfl

/-- Well-formed sub-fields are parsed one after the other, whatever follows them. -/
theorem parseAll_encodeAll_append {fields : List SubField} (sized : ∀ field ∈ fields, field.Sized)
    (rest : Bytes) : parseAll (encodeAll fields ++ rest) = fields ++ parseAll rest := by
  induction fields with
  | nil => rfl
  | cons field others ih =>
    have later : ∀ field ∈ others, field.Sized :=
      fun other mem => sized other (List.mem_cons_of_mem _ mem)
    rw [encodeAll_cons, List.append_assoc, parseAll_encode_append (sized field List.mem_cons_self),
      ih later, List.cons_append]

theorem parseAll_encodeAll {fields : List SubField} (sized : ∀ field ∈ fields, field.Sized) :
    parseAll (encodeAll fields) = fields := by
  have whole := parseAll_encodeAll_append sized []
  rwa [List.append_nil, parseAll_nil, List.append_nil] at whole

theorem longestFront_parseAll (bytes : Bytes) : LongestFront bytes (parseAll bytes) where
  sized := by
    fun_induction parseAll bytes with
    | case1 bytes stuck => exact fun _ mem => nomatch mem
    | case2 bytes field rest run ih =>
      intro other mem
      rcases List.mem_cons.1 mem with rfl | later
      · exact (run_read_eq_some_iff.1 run).2
      · exact ih other later
  front := by
    fun_induction parseAll bytes with
    | case1 bytes stuck => exact List.nil_prefix
    | case2 bytes field rest run ih =>
      obtain ⟨rfl, -⟩ := run_read_eq_some_iff.1 run
      rw [encodeAll_cons]
      exact (List.prefix_append_right_inj _).2 ih
  longest := by
    rintro others sized ⟨rest, rfl⟩
    rw [parseAll_encodeAll_append sized]
    exact List.prefix_append ..

/-- Parsing finds the longest front and nothing else. -/
theorem longestFront_iff {bytes : Bytes} {fields : List SubField} :
    LongestFront bytes fields ↔ parseAll bytes = fields := by
  constructor
  · intro front
    have parsed := longestFront_parseAll bytes
    have le := front.longest _ parsed.sized parsed.front
    have ge := parsed.longest _ front.sized front.front
    exact le.eq_of_length (Nat.le_antisymm le.length_le ge.length_le)
  · rintro rfl
    exact longestFront_parseAll bytes

/-! ### Markers -/

theorem isPadding_iff {field : SubField} :
    field.isPadding = true ↔ field.id = markerId ∨ field.id = 0 ∧ field.payload = [] := by
  rw [isPadding, Bool.or_eq_true, Bool.and_eq_true, decide_eq_true_eq, decide_eq_true_eq,
    List.isEmpty_iff]

theorem isPadding_marker (alignment : UInt16) (padding : Nat) :
    (marker alignment padding).isPadding = true := rfl

theorem encode_marker (alignment : UInt16) (padding : Nat) :
    (marker alignment padding).encode =
      Bytes.word16 0xd935 ++ (Bytes.word16 (UInt16.ofNat (2 + padding)) ++
        (Bytes.word16 alignment ++ Bytes.zeros padding)) := by
  rw [encode, marker, List.length_append, Bytes.length_word16, Bytes.length_zeros, markerId]

theorem length_encode_marker (alignment : UInt16) (padding : Nat) :
    (marker alignment padding).encode.length = markerSize + padding := by
  rw [length_encode, marker, List.length_append, Bytes.length_word16, Bytes.length_zeros,
    markerSize, ← Nat.add_assoc]

theorem sized_marker {alignment : UInt16} {padding : Nat} (small : 2 + padding < 65536) :
    (marker alignment padding).Sized := by
  rwa [Sized, marker, List.length_append, Bytes.length_word16, Bytes.length_zeros]

end SubField

namespace ExtraField

open SubField

/-! ### Padding -/

theorem paddingTo_lt {alignment : Nat} (positive : 0 < alignment) (offset : Nat) :
    paddingTo alignment offset < alignment := Nat.mod_lt _ positive

/-- No smaller number of bytes reaches the boundary. -/
theorem isLeast_paddingTo {alignment : Nat} (positive : 0 < alignment) (offset : Nat) :
    IsLeast {n | (offset + n) % alignment = 0} (paddingTo alignment offset) := by
  refine ⟨add_paddingTo_mod positive offset, ?_⟩
  intro n reaches
  have reaches : (offset % alignment + n) % alignment = 0 := by
    rw [Nat.mod_add_mod]
    exact reaches
  have below : offset % alignment < alignment := Nat.mod_lt _ positive
  unfold paddingTo
  rcases Nat.eq_zero_or_pos (offset % alignment) with none_over | some_over
  · rw [none_over, Nat.sub_zero, Nat.mod_self]
    exact Nat.zero_le n
  · rw [Nat.mod_eq_of_lt (by omega)]
    refine Nat.le_of_not_lt fun short => ?_
    -- A smaller number does not get over the next boundary.
    rw [Nat.mod_eq_of_lt (by omega)] at reaches
    omega

/-! ### What is kept and what is new -/

/-- The sub-fields that a new marker leaves in place. -/
def keptFields (extra : Bytes) : List SubField := (parseAll extra).filter (!·.isPadding)

theorem kept_eq (extra : Bytes) : kept extra = encodeAll (keptFields extra) := rfl

theorem sized_of_mem_keptFields {extra : Bytes} {field : SubField}
    (mem : field ∈ keptFields extra) : field.Sized :=
  (longestFront_parseAll extra).sized field (List.mem_filter.1 mem).1

/-- The padding of a new marker. -/
def padding (extra : Bytes) (offset : Nat) (alignment : UInt16) : Nat :=
  paddingTo alignment.toNat (offset + (kept extra).length + markerSize)

variable {extra : Bytes} {offset : Nat} {alignment : UInt16}

theorem align_eq (many : 1 < alignment.toNat) :
    align extra offset alignment =
      encodeAll (keptFields extra ++ [marker alignment (padding extra offset alignment)]) := by
  rw [align, if_neg (Nat.not_le.2 many), encodeAll_append, encodeAll_singleton, kept_eq]
  rfl

theorem length_align (many : 1 < alignment.toNat) :
    (align extra offset alignment).length =
      (kept extra).length + markerSize + padding extra offset alignment := by
  rw [align_eq many, encodeAll_append, List.length_append, encodeAll_singleton,
    length_encode_marker, kept_eq, Nat.add_assoc]

/-- If the field fits into a local header then its marker is well-formed, like all sub-fields
before it. -/
theorem sized_of_fits (many : 1 < alignment.toNat)
    (fits : (align extra offset alignment).length ≤ 65535) :
    ∀ field ∈ keptFields extra ++ [marker alignment (padding extra offset alignment)],
      field.Sized := by
  intro field mem
  rcases List.mem_append.1 mem with old | new
  · exact sized_of_mem_keptFields old
  · rw [List.mem_singleton.1 new]
    rw [length_align many, markerSize] at fits
    exact sized_marker (by omega)

theorem parseAll_align (many : 1 < alignment.toNat)
    (fits : (align extra offset alignment).length ≤ 65535) :
    parseAll (align extra offset alignment) =
      keptFields extra ++ [marker alignment (padding extra offset alignment)] := by
  rw [align_eq many, parseAll_encodeAll (sized_of_fits many fits)]

/-- The marker is all that a second alignment takes away. -/
theorem keptFields_align (fits : (align extra offset alignment).length ≤ 65535) :
    keptFields (align extra offset alignment) = keptFields extra := by
  rcases Nat.lt_or_ge 1 alignment.toNat with many | few
  · have old : (keptFields extra).filter (!·.isPadding) = keptFields extra := by
      rw [keptFields, List.filter_filter]
      simp only [Bool.and_self]
    have new : [marker alignment (padding extra offset alignment)].filter (!·.isPadding) = [] := by
      simp [isPadding_marker]
    rw [keptFields, parseAll_align many fits, List.filter_append, old, new, List.append_nil]
  · rw [align, if_pos few]

theorem kept_align (fits : (align extra offset alignment).length ≤ 65535) :
    kept (align extra offset alignment) = kept extra := by
  rw [kept_eq, keptFields_align fits, kept_eq]

/-! ### Aligning once, and aligning again -/

/-- An aligning extra field is made of the sub-fields of the longest well-formed front of the
original that are neither markers nor empty with identifier zero, and of one marker, which has the
least padding that moves the end of the field to the boundary. If the field fits into a local header
then the size in the marker is right, and all of the field is parsed. -/
theorem aligned_field_is_marked (extra : Bytes) (offset : Nat) (alignment : UInt16)
    (many : 2 ≤ alignment.toNat) :
    ∃ fields kept padding, LongestFront extra fields ∧
      kept = fields.filter (fun field =>
        ¬ (field.id = 0xd935 ∨ field.id = 0 ∧ field.payload = [])) ∧
      align extra offset alignment = encodeAll kept ++ (Bytes.word16 0xd935 ++
        (Bytes.word16 (UInt16.ofNat (2 + padding)) ++
          (Bytes.word16 alignment ++ Bytes.zeros padding))) ∧
      (offset + (align extra offset alignment).length) % alignment.toNat = 0 ∧
      padding < alignment.toNat ∧
      IsLeast {n | (offset + ((encodeAll kept).length + 6 + n)) % alignment.toNat = 0} padding ∧
      ((align extra offset alignment).length ≤ 65535 →
        (UInt16.ofNat (2 + padding)).toNat = 2 + padding ∧
        LongestFront (align extra offset alignment) (kept ++ [marker alignment padding]) ∧
        parseAll (align extra offset alignment) = kept ++ [marker alignment padding] ∧
        encodeAll (kept ++ [marker alignment padding]) = align extra offset alignment) := by
  have split : align extra offset alignment = _ := align_eq many
  refine ⟨parseAll extra, keptFields extra, padding extra offset alignment,
    longestFront_parseAll extra, ?_, ?_, align_mod many extra offset, paddingTo_lt (by omega) _,
    ?_, ?_⟩
  · refine List.filter_congr fun field _ => ?_
    rw [Bool.eq_iff_iff, Bool.not_eq_true', decide_eq_true_iff, ← Bool.not_eq_true, isPadding_iff]
    rfl
  · rw [split, encodeAll_append, encodeAll_singleton, encode_marker]
  · have least := isLeast_paddingTo (Nat.lt_trans Nat.zero_lt_one many)
      (offset + (kept extra).length + markerSize)
    simp only [← Nat.add_assoc]
    exact least
  · intro fits
    have parsed := parseAll_align many fits
    refine ⟨UInt16.toNat_ofNat_of_lt' ?_, longestFront_iff.2 parsed, parsed, split.symm⟩
    rw [length_align many, markerSize] at fits
    show _ < 65536
    omega

/-- Two sub-fields that stay, with an empty one and an earlier marker in between, and an end that is
no sub-field. -/
def sampleExtra : Bytes :=
  [0xFE, 0xCA, 0, 0, 0, 0, 0, 0, 0x35, 0xD9, 3, 0, 4, 0, 0, 1, 0, 2, 0, 0xAA, 0xBB, 9, 0, 1, 0]

theorem sample_is_marked :
    2 ≤ (8 : UInt16).toNat ∧
      align sampleExtra 100 8 = [0xFE, 0xCA, 0, 0, 1, 0, 2, 0, 0xAA, 0xBB] ++
        (Bytes.word16 0xd935 ++ (Bytes.word16 6 ++ (Bytes.word16 8 ++ Bytes.zeros 4))) ∧
      (align sampleExtra 100 8).length ≤ 65535 ∧
      parseAll (align sampleExtra 100 8) =
        [⟨0xCAFE, []⟩, ⟨1, [0xAA, 0xBB]⟩, marker 8 4] := by
  have many : 2 ≤ (8 : UInt16).toNat := by decide
  obtain ⟨fields, kept, padding, front, rfl, written, -, -, least, read⟩ :=
    aligned_field_is_marked sampleExtra 100 8 many
  have parsed : parseAll sampleExtra =
      [⟨0xCAFE, []⟩, ⟨0, []⟩, ⟨0xD935, [4, 0, 0]⟩, ⟨1, [0xAA, 0xBB]⟩] := by decide +kernel
  obtain rfl := parsed.symm.trans (longestFront_iff.1 front)
  -- Ten bytes stay, so the data would begin at 116 if there were no padding.
  obtain rfl : padding = 4 := by
    have reaches : (100 + (10 + 6 + padding)) % 8 = 0 := least.1
    have minimal : padding ≤ 4 := least.2 (show (100 + (10 + 6 + 4)) % 8 = 0 by decide)
    omega
  have fits : (align sampleExtra 100 8).length ≤ 65535 := by
    rw [written]
    decide
  obtain ⟨-, -, read, -⟩ := read fits
  exact ⟨many, written, fits, read⟩

/-- Padding does not accumulate: an aligned field is aligned as if it had not been. -/
theorem align_align (extra : Bytes) (offset offset' : Nat) (alignment alignment' : UInt16)
    (many : 2 ≤ alignment'.toNat) (fits : (align extra offset alignment).length ≤ 65535) :
    align (align extra offset alignment) offset' alignment' = align extra offset' alignment' ∧
      align (align extra offset alignment) offset alignment = align extra offset alignment := by
  have again (offset' : Nat) {alignment' : UInt16} (many : 1 < alignment'.toNat) :
      align (align extra offset alignment) offset' alignment' = align extra offset' alignment' := by
    rw [align, align.eq_def extra offset', if_neg (Nat.not_le.2 many), if_neg (Nat.not_le.2 many),
      kept_align fits]
  refine ⟨again offset' many, ?_⟩
  rcases Nat.lt_or_ge 1 alignment.toNat with many | few
  · exact again offset many
  · rw [align, if_pos few]

/-- A marker with one zero byte takes the place of one with four. -/
theorem sample_is_aligned_again :
    2 ≤ (4 : UInt16).toNat ∧ (align sampleExtra 100 8).length ≤ 65535 ∧
      align sampleExtra 100 8 ≠ align sampleExtra 103 4 ∧
      align (align sampleExtra 100 8) 103 4 = align sampleExtra 103 4 := by
  have fits : (align sampleExtra 100 8).length ≤ 65535 := by decide +kernel
  have apart : align sampleExtra 100 8 ≠ align sampleExtra 103 4 := by decide +kernel
  exact ⟨by decide, fits, apart, (align_align sampleExtra 100 103 8 4 (by decide) fits).1⟩

end ExtraField
end ApkArchive

import ApkArchive.Bytes.Reader

/-!
# Extra fields that align what follows them

An extra field is a sequence of sub-fields, each with an identifier and a size. An entry's data is
moved to a boundary by a sub-field of its own, the marker, which holds the boundary and as many
zero bytes as it takes. A new marker replaces every earlier one, and also the empty sub-fields with
identifier zero that other tools use as padding. Bytes at the end that are no sub-field are lost.
-/

namespace ApkArchive

/-- A sub-field of an extra field. -/
structure SubField where
  id : UInt16
  payload : Bytes
  deriving DecidableEq, Repr

namespace SubField

/-- The bytes of a sub-field; its size is kept modulo 65536. -/
def encode (field : SubField) : Bytes :=
  Bytes.word16 field.id ++ (Bytes.word16 (UInt16.ofNat field.payload.length) ++ field.payload)

/-- The sub-field with which a buffer begins. -/
def read : Reader SubField := do
  let id ← Reader.word16
  let size ← Reader.word16
  let payload ← Reader.take size.toNat
  return { id, payload }

theorem run_read_eq_some_iff {bytes rest : Bytes} {field : SubField} :
    read.run bytes = some (field, rest) ↔
      bytes = field.encode ++ rest ∧ field.payload.length < 65536 := by
  simp only [read, StateT.run_bind, Option.bind_eq_bind, Option.bind_eq_some_iff, Prod.exists,
    Reader.word16_run_eq_some_iff, Reader.take_run_eq_some_iff, pure, encode]
  constructor
  · rintro ⟨id, _, rfl, size, _, rfl, payload, _, ⟨rfl, eq⟩, ⟨⟩⟩
    simp only [eq, UInt16.ofNat_toNat, List.append_assoc, size.toNat_lt, and_self]
  · rintro ⟨rfl, lt⟩
    refine ⟨field.id, _, List.append_assoc .., _, _, List.append_assoc .., field.payload, rest,
      ⟨rfl, ?_⟩, rfl⟩
    rw [UInt16.toNat_ofNat_of_lt' lt]

/-- The sub-fields of the longest well-formed part at the front of an extra field. -/
def parseAll (bytes : Bytes) : List SubField :=
  match _run : read.run bytes with
  | none => []
  | some (field, rest) => field :: parseAll rest
termination_by bytes.length
decreasing_by
  obtain ⟨rfl, _⟩ := run_read_eq_some_iff.1 _run
  simp only [encode, List.length_append, Bytes.length_word16]
  omega

/-- The identifier of a marker. -/
def markerId : UInt16 := 0xd935

/-- The size of a marker without zero bytes. -/
def markerSize : Nat := 6

/-- A marker for a boundary with `padding` zero bytes. -/
def marker (alignment : UInt16) (padding : Nat) : SubField :=
  ⟨markerId, Bytes.word16 alignment ++ Bytes.zeros padding⟩

/-- Whether the sub-field is there only to move what follows it. -/
def isPadding (field : SubField) : Bool :=
  field.id = markerId || field.id = 0 && field.payload.isEmpty

end SubField

namespace ExtraField

/-- The bytes of the sub-fields that a new marker leaves in place. -/
def kept (extra : Bytes) : Bytes :=
  ((SubField.parseAll extra).filter (!·.isPadding)).flatMap SubField.encode

/-- The least number of bytes that moves `offset` to a multiple of `alignment`. -/
def paddingTo (alignment offset : Nat) : Nat := (alignment - offset % alignment) % alignment

/-- The extra field, beginning at `offset` of the archive, with a marker that moves the end of it
to a multiple of `alignment`. No alignment leaves it as it is. -/
def align (extra : Bytes) (offset : Nat) (alignment : UInt16) : Bytes :=
  if alignment.toNat ≤ 1 then extra
  else
    let front := kept extra
    let padding := paddingTo alignment.toNat (offset + front.length + SubField.markerSize)
    front ++ (SubField.marker alignment padding).encode

end ExtraField
end ApkArchive

/-!
# Methods and timestamps

Both headers of an entry say how its data is compressed, in a code and some flags, and when it was
last modified: a timestamp is a pair of words, a date and a time of day in steps of two seconds.
Comparing dates first and times second is chronological order.
-/

namespace ApkArchive

/-! ### Methods -/

/-- How the data of an entry is compressed. -/
inductive Method
  | stored
  | deflate
  /-- A method that the library can copy but not read. -/
  | other (code : UInt16)
  deriving DecidableEq, Repr

namespace Method

/-- The method with a code. -/
def ofCode (code : UInt16) : Method :=
  if code = 0 then stored else if code = 8 then deflate else other code

/-- The code of a method. -/
def code : Method → UInt16
  | stored => 0
  | deflate => 8
  | other code => code

@[simp] theorem code_ofCode (code : UInt16) : (ofCode code).code = code := by
  unfold ofCode
  split
  · next h => exact h.symm
  split
  · next h => exact h.symm
  · rfl

end Method

/-- The bit of the general flags that says that a data descriptor follows the data. -/
def descriptorFlag : UInt16 := 0x0008

/-- The bit of the general flags that says that the name is UTF-8. -/
def utf8Flag : UInt16 := 0x0800

/-- The version that is needed to extract a deflated entry. -/
def deflateVersion : UInt16 := 20

/-! ### Timestamps -/

/-- When an entry was last modified. -/
structure Timestamp where
  date : UInt16
  time : UInt16
  deriving DecidableEq, Repr

namespace Timestamp

/-- The timestamp of new entries in an archive that has no other: 2009-01-01 00:00:00. -/
def default : Timestamp := ⟨0x3a21, 0⟩

/-- Year, month and day. -/
def ymd (stamp : Timestamp) : Nat × Nat × Nat :=
  let date := stamp.date.toNat
  (date / 512 + 1980, date / 32 % 16, date % 32)

/-- Hour, minute and second. -/
def hms (stamp : Timestamp) : Nat × Nat × Nat :=
  let time := stamp.time.toNat
  (time / 2048, time / 32 % 64, time % 32 * 2)

example : default.ymd = (2009, 1, 1) ∧ default.hms = (0, 0, 0) := by decide

/-- The place of a timestamp in chronological order. -/
def order (stamp : Timestamp) : Nat := stamp.date.toNat * 65536 + stamp.time.toNat

/-- The later of two timestamps. -/
def later (a b : Timestamp) : Timestamp := if a.order ≤ b.order then b else a

/-- The latest of some timestamps. -/
def latest? : List Timestamp → Option Timestamp
  | [] => none
  | stamp :: stamps => some (stamps.foldl later stamp)

end Timestamp
end ApkArchive

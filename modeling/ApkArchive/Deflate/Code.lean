import ApkArchive.Deflate.Bits

/-!
# Huffman codes

A code is a binary tree with symbols at its leaves; decoding walks down from the root, one bit at
a step. DEFLATE sends only the length of each symbol's code word. The words themselves follow:
shorter ones come first, and among those of one length the order is that of the symbols, so the
tree is filled from left to right.
-/

namespace ApkArchive.Deflate

/-- A part of a code. -/
inductive Code
  /-- No word begins like this. -/
  | vacant
  /-- A word ends here. -/
  | symbol (s : Nat)
  /-- Words go on with a zero or a one. -/
  | fork (zero one : Code)
  deriving DecidableEq, Repr

namespace Code

/-- The symbol whose word comes next. -/
def decode : Code → Decoder Nat
  | vacant => Decoder.corrupt
  | symbol s => pure s
  | fork zero one => do if ← Decoder.bit then one.decode else zero.decode

/-- Whether every sequence of bits begins with a word. -/
def isComplete : Code → Bool
  | vacant => false
  | symbol _ => true
  | fork zero one => zero.isComplete && one.isComplete

/-- The part of the code below a node at `depth`, which may grow by `room` more levels, from the
words that have not found a place yet; and the words for which there is none below it. A word is
a length and a symbol, and the words come in the order of their lengths. -/
def place (depth : Nat) : (room : Nat) → List (Nat × Nat) → Code × List (Nat × Nat)
  | _, [] => (vacant, [])
  | 0, (length, s) :: words =>
    if length = depth then (symbol s, words) else (vacant, (length, s) :: words)
  | room + 1, (length, s) :: words =>
    if length = depth then (symbol s, words)
    else
      let (zero, left) := place (depth + 1) room ((length, s) :: words)
      let (one, left) := place (depth + 1) room left
      (fork zero one, left)

theorem shrinks_decode (code : Code) : code.decode.Shrinks := by
  induction code with
  | vacant => exact Decoder.shrinks_corrupt
  | symbol s => exact Decoder.shrinks_pure s
  | fork zero one ihZero ihOne =>
    refine Decoder.consumes_bit.shrinks.bind fun b => ?_
    cases b
    · exact ihZero
    · exact ihOne

end Code

/-- A whole code: every word has at least one bit. -/
structure CodeTable where
  zero : Code
  one : Code
  deriving DecidableEq, Repr

namespace CodeTable

/-- The length of the longest word. -/
def maxLength : Nat := 15

/-- The symbol whose word comes next. -/
def decode (table : CodeTable) : Decoder Nat := do
  if ← Decoder.bit then table.one.decode else table.zero.decode

theorem consumes_decode (table : CodeTable) : table.decode.Consumes := by
  refine Decoder.consumes_bit.bind fun b => ?_
  cases b
  · exact table.zero.shrinks_decode
  · exact table.one.shrinks_decode

/-- The symbols that have a word, with its length, in the order of their words. Symbol `i` has a
word of `lengths[i]` bits; zero means that it has none. -/
def words (lengths : List Nat) : List (Nat × Nat) :=
  (List.range' 1 maxLength).flatMap fun length =>
    lengths.zipIdx.filter fun word => word.1 = length

/-- The tree that is filled with words of the given lengths, and the words that do not fit in. -/
def fill (lengths : List Nat) : CodeTable × List (Nat × Nat) :=
  let (zero, left) := Code.place 1 (maxLength - 1) (words lengths)
  let (one, left) := Code.place 1 (maxLength - 1) left
  (⟨zero, one⟩, left)

/-- The code with words of the given lengths, as far as they fit in. -/
def ofLengths (lengths : List Nat) : CodeTable := (fill lengths).1

/-- Whether there is room for words of the given lengths. -/
def fits (lengths : List Nat) : Bool := (fill lengths).2.isEmpty

/-- Whether every sequence of bits begins with a word. -/
def isComplete (table : CodeTable) : Bool := table.zero.isComplete && table.one.isComplete

end CodeTable
end ApkArchive.Deflate

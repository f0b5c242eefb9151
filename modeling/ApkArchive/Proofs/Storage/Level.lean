import ApkArchive.Proofs.Storage.Stream
import ApkArchive.Proofs.Storage.Tandem

/-!
# Sinks that look at sizes

A sink in memory refuses nothing, and a limited one counts bytes; what is in the bytes makes no
difference to either. So two writers that write as many bytes in as many writes go equally far.
-/

namespace ApkArchive.Sink

/-- What the sink refuses depends on sizes, and not on contents. -/
def Blind (sink : Sink) : Prop :=
  ∀ ⦃contents contents' : ByteArray⦄ writes ⦃chunk chunk' : Bytes⦄,
    contents.size = contents'.size → chunk.length = chunk'.length →
      sink.refusal contents writes chunk = sink.refusal contents' writes chunk'

theorem blind_limited (limit : Nat) : (limited limit).Blind := by
  intro contents contents' writes chunk chunk' size length
  unfold limited
  dsimp only
  rw [size, length]

/-- Two blind sinks with contents of the same size, brought by the same writes. -/
structure Level (front front' : Bytes) (sink sink' : Sink) : Prop where
  left : sink.bytes = front
  right : sink'.bytes = front'
  size : front.length = front'.length
  writes : sink.writes = sink'.writes
  refusal : sink.refusal = sink'.refusal
  blind : sink.Blind

variable {front front' chunk chunk' : Bytes} {E : Sink → Prop}

theorem pairs_write (length : chunk.length = chunk'.length) :
    Pairs (Level front front') (write chunk) (write chunk')
      (Tandem (fun _ _ => Level (front ++ chunk) (front' ++ chunk')) fun _ => True) := by
  rintro ⟨contents, writes, refusal⟩ ⟨contents', _, _⟩ ⟨rfl, rfl, size, rfl, rfl, blind⟩
  have sizes : contents.size = contents'.size := by simpa [bytes] using size
  unfold write
  cases chunk with
  | nil =>
    obtain rfl := List.length_eq_zero_iff.1 length.symm
    exact .ok ⟨(List.append_nil _).symm, (List.append_nil _).symm, by simpa using size, rfl, rfl,
      blind⟩
  | cons byte rest =>
    cases chunk' with
    | nil => cases length
    | cons byte' rest' =>
      have same : refusal contents writes (byte :: rest) =
          refusal contents' writes (byte' :: rest') :=
        blind writes sizes length
      simp only [List.isEmpty_cons, Bool.false_eq_true, if_false, ← same]
      cases refusal contents writes (byte :: rest) with
      | some fault => exact .error _ trivial
      | none =>
        refine .ok ⟨by simp [bytes], by simp [bytes], ?_, ?_, rfl, blind⟩
        · rw [List.length_append, List.length_append, size, length]
        · exact congrArg (writes.push ·) length

/-- The induction is on the pieces of the first byte string; those of the second are as large. -/
theorem pairs_stream (length : chunk.length = chunk'.length) :
    Pairs (Level front front') (stream chunk) (stream chunk')
      (Tandem (fun _ _ => Level (front ++ chunk) (front' ++ chunk')) fun _ => True) := by
  unfold stream
  fun_induction Bytes.chunked chunk generalizing chunk' front front' with
  | case1 =>
    obtain rfl := List.length_eq_zero_iff.1 length.symm
    rw [Bytes.chunked, if_pos rfl, List.append_nil, List.append_nil]
    exact Pairs.pure fun _ _ level => level
  | case2 chunk some_left ih =>
    have some_left' : chunk' ≠ [] := by
      intro empty
      rw [empty] at length
      exact some_left (List.length_eq_zero_iff.1 length)
    have pieces : chunk'.chunked =
        chunk'.take View.chunkSize :: Bytes.chunked (chunk'.drop View.chunkSize) := by
      rw [Bytes.chunked, if_neg some_left']
    rw [pieces]
    have first : Pairs (Level front front') (write (chunk.take View.chunkSize))
        (write (chunk'.take View.chunkSize)) _ :=
      pairs_write (by rw [List.length_take, List.length_take, length])
    have rest : Pairs
        (Level (front ++ chunk.take View.chunkSize) (front' ++ chunk'.take View.chunkSize))
        ((Bytes.chunked (chunk.drop View.chunkSize)).forM write)
        ((Bytes.chunked (chunk'.drop View.chunkSize)).forM write) _ :=
      ih (by rw [List.length_drop, List.length_drop, length])
    rw [List.append_assoc, List.append_assoc, List.take_append_drop, List.take_append_drop] at rest
    exact Pairs.bind Tandem.excuses first fun _ _ => rest

end ApkArchive.Sink

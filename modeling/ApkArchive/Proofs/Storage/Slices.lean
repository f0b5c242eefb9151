import ApkArchive.Proofs.Storage.Paths

/-!
# Slices of slices

A view that was made by slicing again and again is a range of its store, and the same range as one
slice of the whole. Offsets are numbers here. In words of 64 bits a sum may wrap around, and only
one sum is checked for that, the one of the request:

    span.slice offset size = ok ↔ offset + size does not wrap around and is ≤ span.size

Still a chain of slices makes the same views in words as in numbers, if the size of the store is a
word.

What a request does is decided by the bytes of its range: on any other store that has the same bytes
there it does the same.
-/

namespace ApkArchive

/-- Whether a request was rejected because of its range. -/
def Error.isRange : Error → Bool
  | range .. => true
  | _ => false

/-! ### Requests in words -/

/-- The range of a view in words of 64 bits. -/
structure Span where
  offset : UInt64
  size : UInt64
  deriving DecidableEq

namespace Span

/-- The sum of two words if it is one. -/
def checkedAdd (a b : UInt64) : Option UInt64 :=
  if a.toNat + b.toNat < UInt64.size then some (a + b) else none

/-- The range of `size` bytes at `offset`. Only the request is checked; the sum of the two offsets
wraps around if it is too large. -/
def slice (span : Span) (offset size : UInt64) : Except Error Span :=
  match checkedAdd offset size with
  | some stop =>
    if stop ≤ span.size then .ok ⟨span.offset + offset, size⟩
    else .error (.range offset.toNat size.toNat span.size.toNat)
  | none => .error (.range offset.toNat size.toNat span.size.toNat)

/-- One slice after the other. -/
def sliceAll (span : Span) (ranges : List (UInt64 × UInt64)) : Except Error Span :=
  ranges.foldlM (fun span range => span.slice range.1 range.2) span

theorem toNat_add {a b : UInt64} (fits : a.toNat + b.toNat < UInt64.size) :
    (a + b).toNat = a.toNat + b.toNat := by
  rw [UInt64.toNat_add, Nat.mod_eq_of_lt fits]

/-- The check in words accepts what the check in numbers accepts. -/
theorem slice_eq (span : Span) (offset size : UInt64) :
    span.slice offset size =
      if offset.toNat + size.toNat ≤ span.size.toNat then .ok ⟨span.offset + offset, size⟩
      else .error (.range offset.toNat size.toNat span.size.toNat) := by
  have : span.size.toNat < UInt64.size := span.size.toNat_lt
  unfold slice checkedAdd
  by_cases fits : offset.toNat + size.toNat < UInt64.size
  · simp only [fits, if_true, UInt64.le_iff_toNat_le, toNat_add fits]
  · have : ¬ offset.toNat + size.toNat ≤ span.size.toNat := by omega
    simp only [fits, this, if_false]

end Span

namespace View

variable {view : View} {offset size : Nat}

/-- The range of the view in words. -/
def span (view : View) : Span := ⟨.ofNat view.offset, .ofNat view.size⟩

/-- One slice after the other. -/
def sliceAll (view : View) (ranges : List (UInt64 × UInt64)) : Except Error View :=
  ranges.foldlM (fun view range => view.slice range.1.toNat range.2.toNat) view

section Words

variable (fits : view.store.size < UInt64.size)
include fits

theorem toNat_span : view.span.offset.toNat = view.offset ∧ view.span.size.toNat = view.size := by
  have := view.inside
  exact ⟨UInt64.toNat_ofNat_of_lt' (by omega), UInt64.toNat_ofNat_of_lt' (by omega)⟩

/-- Where a request inside the view begins and ends in the store. -/
theorem toNat_request {offset size : UInt64} (inside : offset.toNat + size.toNat ≤ view.size) :
    (view.span.offset + offset).toNat = view.offset + offset.toNat ∧
      (view.span.offset + offset + size).toNat = view.offset + offset.toNat + size.toNat := by
  obtain ⟨start, _⟩ := toNat_span fits
  have := view.inside
  have first : (view.span.offset + offset).toNat = view.offset + offset.toNat := by
    rw [Span.toNat_add (by omega), start]
  refine ⟨first, ?_⟩
  rw [Span.toNat_add (by omega), first]

theorem span_slice (offset size : UInt64) :
    view.span.slice offset size = (view.slice offset.toNat size.toNat).map span := by
  obtain ⟨_, room⟩ := toNat_span fits
  rw [Span.slice_eq, slice, room]
  split
  · next inside =>
    have start : view.span.offset + offset = .ofNat (view.offset + offset.toNat) := by
      rw [← (toNat_request fits inside).1, UInt64.ofNat_toNat]
    rw [start, Except.map, span, UInt64.ofNat_toNat]
  · rfl

end Words

/-- A chain of slices is the same in words and in numbers, also where it fails. -/
theorem span_sliceAll (view : View) (fits : view.store.size < UInt64.size)
    (ranges : List (UInt64 × UInt64)) :
    view.span.sliceAll ranges = (view.sliceAll ranges).map span := by
  induction ranges generalizing view with
  | nil => rfl
  | cons range rest ih =>
    unfold Span.sliceAll sliceAll at ih ⊢
    rw [List.foldlM_cons, List.foldlM_cons, span_slice fits]
    cases first : view.slice range.1.toNat range.2.toNat with
    | error error => rfl
    | ok part => exact ih part (by rwa [(slice_eq_ok_iff.1 first).2.1])

theorem sliceAll_cons_eq_ok_iff {view last : View} {range : UInt64 × UInt64}
    {rest : List (UInt64 × UInt64)} :
    view.sliceAll (range :: rest) = .ok last ↔
      ∃ part, view.slice range.1.toNat range.2.toNat = .ok part ∧
        part.sliceAll rest = .ok last := by
  unfold sliceAll
  rw [List.foldlM_cons]
  cases view.slice range.1.toNat range.2.toNat with
  | error error => exact ⟨nofun, nofun⟩
  | ok part =>
    constructor
    · exact fun reached => ⟨part, rfl, reached⟩
    · rintro ⟨_, ⟨⟩, reached⟩
      exact reached

theorem store_of_sliceAll {ranges : List (UInt64 × UInt64)} {last : View}
    (reached : view.sliceAll ranges = .ok last) : last.store = view.store := by
  induction ranges generalizing view with
  | nil =>
    cases reached
    rfl
  | cons range rest ih =>
    obtain ⟨part, first, reached⟩ := sliceAll_cons_eq_ok_iff.1 reached
    rw [ih reached, (slice_eq_ok_iff.1 first).2.1]

/-- Every slice of a chain is one of a view that the chain before it leads to. -/
theorem sliceAll_append_cons {last : View} {done rest : List (UInt64 × UInt64)}
    {range : UInt64 × UInt64} (reached : view.sliceAll (done ++ range :: rest) = .ok last) :
    ∃ part, view.sliceAll done = .ok part ∧ range.1.toNat + range.2.toNat ≤ part.size := by
  induction done generalizing view with
  | nil =>
    obtain ⟨_, first, _⟩ := sliceAll_cons_eq_ok_iff.1 reached
    exact ⟨view, rfl, (slice_eq_ok_iff.1 first).1⟩
  | cons range' done ih =>
    obtain ⟨middle, first, reached⟩ := sliceAll_cons_eq_ok_iff.1 reached
    obtain ⟨part, before, inside⟩ := ih reached
    exact ⟨part, sliceAll_cons_eq_ok_iff.2 ⟨middle, first, before⟩, inside⟩

/-- A slice of a slice is a slice. -/
theorem slice_slice {part inner : View} {offset' size' : Nat}
    (outside : view.slice offset size = .ok part) :
    part.slice offset' size' = .ok inner ↔
      offset' + size' ≤ size ∧ view.slice (offset + offset') size' = .ok inner := by
  obtain ⟨fits, store, place, room⟩ := slice_eq_ok_iff.1 outside
  rw [slice_eq_ok_iff, slice_eq_ok_iff, store, place, room, Nat.add_assoc]
  constructor
  · rintro ⟨fits', same⟩
    exact ⟨fits', by omega, same⟩
  · rintro ⟨fits', _, same⟩
    exact ⟨fits', same⟩

/-! ### Requests that are rejected -/

theorem checkRange_of_outside (outside : view.size < offset + size) :
    view.checkRange offset size = .error (.range offset size view.size) :=
  if_neg (Nat.not_le.2 outside)

theorem feed_of_outside (outside : view.size < offset + size) :
    view.feed offset size = throw (.range offset size view.size) := by
  rw [feed_eq, checkRange_of_outside outside, ofExcept_error_bind]

theorem copy_of_outside (outside : view.size < offset + size) :
    view.copy offset size = .error (.range offset size view.size) := by
  rw [copy, checkRange_of_outside outside]
  rfl

theorem read_of_outside (outside : view.size < offset + size) :
    view.read offset size = .error (.range offset size view.size) := by
  rw [read, checkRange_of_outside outside]
  rfl

/-- A request inside the view fails only for reasons of the store. -/
theorem not_isRange_of_copy {error : Error} (inside : offset + size ≤ view.size)
    (run : view.copy offset size = .error error) : ¬ error.isRange := by
  rcases view.holds_or_missing offset size with held | ⟨some_left, missing⟩
  · rw [copy_eq_ok_iff.2 ⟨inside, held, rfl⟩] at run
    cases run
  · rw [copy_of_missing inside some_left missing] at run
    cases run
    exact Bool.false_ne_true

/-- What is rejected because of its range, and that nothing is done then. -/
structure RangeChecked (view : View) : Prop where
  slice : ∀ offset size, (∃ error, view.slice offset size = .error error ∧ error.isRange) ↔
    view.size < offset + size
  copy : ∀ offset size, (∃ error, view.copy offset size = .error error ∧ error.isRange) ↔
    view.size < offset + size
  read : ∀ offset size, (∃ error, view.read offset size = .error error ∧ error.isRange) ↔
    view.size < offset + size ∨ 0x7FFFFFFF < size
  feed : ∀ offset size sink,
    (∃ error sink', view.feed offset size sink = .error error sink' ∧ error.isRange) ↔
      view.size < offset + size
  untouched : ∀ offset size sink error sink', view.feed offset size sink = .error error sink' →
    error.isRange → error = .range offset size view.size ∧ sink' = sink

theorem rangeChecked (view : View) : view.RangeChecked where
  slice offset size := by
    unfold View.slice
    split
    · next inside =>
      constructor
      · rintro ⟨_, ⟨⟩, _⟩
      · omega
    · next outside =>
      exact ⟨fun _ => Nat.lt_of_not_le outside, fun _ => ⟨_, rfl, rfl⟩⟩
  copy offset size := by
    constructor
    · rintro ⟨error, run, range⟩
      exact Nat.lt_of_not_le fun inside => not_isRange_of_copy inside run range
    · exact fun outside => ⟨_, copy_of_outside outside, rfl⟩
  read offset size := by
    rcases Nat.lt_or_ge view.size (offset + size) with outside | inside
    · exact ⟨fun _ => .inl outside, fun _ => ⟨_, read_of_outside outside, rfl⟩⟩
    rcases Nat.lt_or_ge maxBufferSize size with large | small
    · exact ⟨fun _ => .inr large, fun _ => ⟨_, read_of_large inside large, rfl⟩⟩
    · rw [read_eq_copy small]
      constructor
      · rintro ⟨error, run, range⟩
        exact absurd range (not_isRange_of_copy inside run)
      · rintro (outside | large)
        · omega
        · exact absurd small (Nat.not_le.2 large)
  feed offset size sink := by
    constructor
    · rintro ⟨error, sink', run, range⟩
      refine Nat.lt_of_not_le fun inside => ?_
      obtain ⟨⟨fault, rfl⟩, _⟩ := (view.ensures_feed inside sink.bytes).error rfl run
      cases range
    · intro outside
      rw [feed_of_outside outside]
      exact ⟨_, _, rfl, rfl⟩
  untouched offset size sink error sink' run range := by
    rcases Nat.lt_or_ge view.size (offset + size) with outside | inside
    · rw [feed_of_outside outside] at run
      cases run
      exact ⟨rfl, rfl⟩
    · obtain ⟨⟨fault, rfl⟩, _⟩ := (view.ensures_feed inside sink.bytes).error rfl run
      cases range

end View

/-! ### Requests and the rest of the store -/

namespace Store

/-- The stores have the same bytes in a range, and deliver them in the same reads. -/
structure AgreesOn (a b : Store) (start n : Nat) : Prop where
  contiguous : a.contiguous = b.contiguous
  held : ∀ i, start ≤ i → i < start + n → (i < a.held ↔ i < b.held)
  byte : ∀ i, start ≤ i → i < start + n → a.byte i = b.byte i
  stride : ∀ i, start ≤ i → i < start + n → a.stride i = b.stride i

namespace AgreesOn

variable {a b : Store} {start n offset m : Nat}

theorem mono (h : a.AgreesOn b start n) (first : start ≤ offset) (last : offset + m ≤ start + n) :
    a.AgreesOn b offset m where
  contiguous := h.contiguous
  held i lower upper := h.held i (by omega) (by omega)
  byte i lower upper := h.byte i (by omega) (by omega)
  stride i lower upper := h.stride i (by omega) (by omega)

theorem bytes_eq (h : a.AgreesOn b start n) : a.bytes start n = b.bytes start n := by
  refine List.map_congr_left fun i mem => ?_
  obtain ⟨lower, upper⟩ := List.mem_range'_1.1 mem
  exact h.byte i lower upper

theorem missing_iff (h : a.AgreesOn b start n) (some_left : 0 < n) :
    a.held < start + n ↔ b.held < start + n := by
  have := h.held (start + n - 1) (by omega) (by omega)
  omega

theorem delivered_eq (h : a.AgreesOn b start n) : a.delivered start n = b.delivered start n := by
  rcases Nat.eq_zero_or_pos n with rfl | some_left
  · rw [delivered, delivered, Nat.zero_min, Nat.zero_min]
  -- If one store held more of the range, the other one would not hold the first byte of that.
  · have held : min n (a.held - start) = min n (b.held - start) := by
      have := h.held (max start a.held)
      have := h.held (max start b.held)
      omega
    have stride : a.stride start = b.stride start := h.stride start (Nat.le_refl _) (by omega)
    rw [delivered, delivered, ← Nat.min_assoc, ← Nat.min_assoc, held, stride]

theorem readOnto_eq (h : a.AgreesOn b start n) (front : Array UInt8) :
    a.readOnto front start n = b.readOnto front start n := by
  fun_induction readOnto a front start n with
  | case1 => rw [readOnto, if_pos rfl]
  | case2 front start n some_left got stuck =>
    have none : b.delivered start n = 0 := h.delivered_eq ▸ stuck
    rw [readOnto, if_neg some_left]
    simp only [none, if_true]
  | case3 front start n some_left got progress ih =>
    have le : got ≤ n := a.delivered_le start n
    have same : b.delivered start n = got := h.delivered_eq.symm
    have bytes : a.bytes start got = b.bytes start got :=
      (h.mono (Nat.le_refl _) (by omega)).bytes_eq
    rw [ih (h.mono (by omega) (by omega)), bytes]
    conv => rhs; rw [readOnto, if_neg some_left]
    simp only [same, progress, if_false]

theorem readExact_eq (h : a.AgreesOn b start n) : a.readExact start n = b.readExact start n :=
  h.readOnto_eq #[]

theorem forM_writeChunk_eq (h : a.AgreesOn b start n) :
    (View.chunks start n).forM (View.writeChunk a) =
      (View.chunks start n).forM (View.writeChunk b) := by
  fun_induction View.chunks start n with
  | case1 => rfl
  | case2 start n some_left ih =>
    have first : a.AgreesOn b start (min View.chunkSize n) := h.mono (Nat.le_refl _) (by omega)
    have chunk : View.writeChunk a (start, min View.chunkSize n) =
        View.writeChunk b (start, min View.chunkSize n) := by
      rw [View.writeChunk, View.writeChunk, first.contiguous, first.bytes_eq, first.readExact_eq]
    simp only [List.forM_eq_forM] at ih ⊢
    rw [List.forM_cons, List.forM_cons, chunk]
    rcases Nat.lt_or_ge n View.chunkSize with small | large
    · rw [Nat.sub_eq_zero_of_le (Nat.le_of_lt small), View.chunks, if_pos rfl, List.forM_nil,
        List.forM_nil]
    · rw [ih (h.mono (by omega) (by omega))]

end AgreesOn
end Store

namespace View

/-- What a request delivers is its range of the store, and nothing else of the store matters. -/
structure ReadsWithin (view : View) : Prop where
  fed : ∀ offset size sink sink' u, view.feed offset size sink = .ok u sink' →
    sink'.bytes = sink.bytes ++ (List.range' (view.offset + offset) size).map view.store.byte
  copied : ∀ offset size bytes, view.copy offset size = .ok bytes →
    bytes = (List.range' (view.offset + offset) size).map view.store.byte
  buffered : ∀ offset size bytes, view.read offset size = .ok bytes →
    bytes = (List.range' (view.offset + offset) size).map view.store.byte
  nothing_else : ∀ (other : View) offset size, other.offset = view.offset → other.size = view.size →
    view.store.AgreesOn other.store (view.offset + offset) size →
      other.feed offset size = view.feed offset size ∧
      other.copy offset size = view.copy offset size ∧
      other.read offset size = view.read offset size

theorem readsWithin (view : View) : view.ReadsWithin where
  fed offset size _ _ _ run := (view.emits_feed offset size run).2
  copied _ _ _ run := (copy_eq_ok_iff.1 run).2.2
  buffered _ _ _ run := (read_eq_ok_iff.1 run).2.2.2
  nothing_else other offset size place room agree := by
    have check : other.checkRange offset size = view.checkRange offset size := by
      rw [checkRange, checkRange, room]
    refine ⟨?_, ?_, ?_⟩
    · have missing : (size ≠ 0 ∧ view.store.held < view.offset + offset + size) ↔
          (size ≠ 0 ∧ other.store.held < view.offset + offset + size) :=
        and_congr_right fun some_left => agree.missing_iff (Nat.pos_of_ne_zero some_left)
      rw [feed_eq, feed_eq, check, place, ← agree.contiguous, agree.forM_writeChunk_eq]
      simp only [Bool.and_assoc, Bool.and_eq_true, decide_eq_true_eq, missing]
    · rw [copy, copy, check, place, agree.readExact_eq]
    · rw [read, read, check, place, room, agree.readExact_eq]

/-! ### Views of a store -/

/-- What is known of a view that was reached from all of a store by a chain of slices. -/
structure Confined (store : Store) (ranges : List (UInt64 × UInt64)) (view : View) : Prop where
  store_eq : view.store = store
  inside : view.offset + view.size ≤ store.size
  /-- Where every slice of the chain ends in the store. -/
  steps : ∀ done range rest, ranges = done ++ range :: rest →
    ∃ part, (ofStore store).sliceAll done = .ok part ∧
      part.offset + range.1.toNat + range.2.toNat < UInt64.size
  /-- The chain in words leads to the same range. -/
  words : (Span.mk 0 (.ofNat store.size)).sliceAll ranges = .ok view.span ∧
    view.span.offset.toNat = view.offset ∧ view.span.size.toNat = view.size
  /-- So does the next slice, or it is rejected in the same way. -/
  next : ∀ offset size, view.span.slice offset size = (view.slice offset.toNat size.toNat).map span
  /-- No sum wraps around in a request that has passed the check. -/
  sums : ∀ offset size : UInt64, offset.toNat + size.toNat ≤ view.size →
    (view.span.offset + offset).toNat = view.offset + offset.toNat ∧
    (view.span.offset + offset + size).toNat = view.offset + offset.toNat + size.toNat
  composes : ∀ offset size part, view.slice offset size = .ok part →
    ∀ offset' size' inner, part.slice offset' size' = .ok inner ↔
      offset' + size' ≤ size ∧ view.slice (offset + offset') size' = .ok inner
  checked : view.RangeChecked
  reads : view.ReadsWithin

/-- However often a view is sliced, it stays inside its store, nothing wraps around on the way, and
what is read through it is its range. -/
theorem confined_of_sliceAll {store : Store} (fits : store.size < UInt64.size)
    {ranges : List (UInt64 × UInt64)} {view : View}
    (reached : (ofStore store).sliceAll ranges = .ok view) : Confined store ranges view := by
  have same : view.store = store := store_of_sliceAll reached
  have fits' : view.store.size < UInt64.size := same ▸ fits
  refine ⟨same, same ▸ view.inside, fun done range rest split => ?_, ⟨?_, toNat_span fits'⟩,
    span_slice fits', fun _ _ => toNat_request fits',
    fun _ _ _ outside _ _ _ => slice_slice outside, rangeChecked view, readsWithin view⟩
  · rw [split] at reached
    obtain ⟨part, before, inside⟩ := sliceAll_append_cons reached
    have within : part.offset + part.size ≤ part.store.size := part.inside
    rw [store_of_sliceAll before] at within
    have : part.offset + part.size < UInt64.size := Nat.lt_of_le_of_lt within fits
    exact ⟨part, before, by omega⟩
  · have chain := (ofStore store).span_sliceAll fits ranges
    rw [reached] at chain
    exact chain

/-- The last bytes of the largest store. -/
theorem confined_at_the_top :
    (Store.sparse 18446744073709551615 []).size < UInt64.size ∧
      ∃ view, (ofStore (.sparse 18446744073709551615 [])).sliceAll
          [(18446744073709551612, 3), (1, 2)] = .ok view ∧
        Confined (.sparse 18446744073709551615 []) [(18446744073709551612, 3), (1, 2)] view :=
  ⟨by decide, ⟨.sparse 18446744073709551615 [], 18446744073709551613, 2, by decide⟩, rfl,
    confined_of_sliceAll (by decide) rfl⟩

end View
end ApkArchive

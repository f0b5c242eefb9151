import ApkArchive.Storage.View

/-!
# Reading ranges

What a read delivers is decided by the store alone: a read of a range either fails or gives
exactly the bytes that the store has there, and it succeeds whenever the store holds the range.

    read offset n = ok bytes ↔ the range is inside, held, and bytes = view.bytes offset n

`Shows` says that a view is a complete and readable copy of a byte string. What is read through
such a view is a part of that string, wherever the string is stored.
-/

namespace ApkArchive

namespace Store

/-- The store can deliver every byte of a range. -/
def Holds (store : Store) (offset n : Nat) : Prop := n = 0 ∨ offset + n ≤ store.held

theorem Holds.mono {store : Store} {offset n start m : Nat} (h : store.Holds offset n)
    (first : offset ≤ start) (last : start + m ≤ offset + n) : store.Holds start m := by
  rcases h with rfl | held
  · exact Or.inl (by omega)
  · exact Or.inr (by omega)

/-- Two ranges that follow each other are held as one range. -/
theorem Holds.append {store : Store} {offset m n : Nat} (front : store.Holds offset m)
    (back : store.Holds (offset + m) n) : store.Holds offset (m + n) := by
  rcases back with rfl | held
  · exact front
  · exact Or.inr (by omega)

theorem drop_bytes (store : Store) (offset n k : Nat) :
    (store.bytes offset n).drop k = store.bytes (offset + k) (n - k) := by
  rw [bytes, ← List.map_drop, List.drop_range', Nat.mul_one, bytes]

theorem take_bytes (store : Store) {offset n k : Nat} (le : k ≤ n) :
    (store.bytes offset n).take k = store.bytes offset k := by
  rw [bytes, ← List.map_take, List.take_range'_of_length_ge le, bytes]

/-- Reading on goes to the end of the range or fails; a short read is followed by another. -/
theorem readOnto_eq_ok {store : Store} {front : Array UInt8} {offset n : Nat} {bytes : Bytes}
    (run : store.readOnto front offset n = .ok bytes) :
    bytes = front.toList ++ store.bytes offset n ∧ store.Holds offset n := by
  fun_induction readOnto store front offset n with
  | case1 front offset =>
    cases run
    exact ⟨by simp [Store.bytes], Or.inl rfl⟩
  | case2 => cases run
  | case3 front offset n some_left got progress ih =>
    have le : got ≤ n := store.delivered_le offset n
    -- Something was delivered, so the read has not gone beyond what is held.
    have inside : offset + got ≤ store.held := by
      have : got ≤ store.held - offset := by simp only [got, delivered]; omega
      omega
    obtain ⟨rfl, held⟩ := ih run
    refine ⟨?_, ?_⟩
    · simp only [Array.toList_appendList, List.append_assoc, store.bytes_append]
      rw [Nat.add_sub_of_le le]
    · rcases held with done | held
      · exact Or.inr (by omega)
      · exact Or.inr (by omega)

theorem readExact_eq_ok_iff {store : Store} {offset n : Nat} {bytes : Bytes} :
    store.readExact offset n = .ok bytes ↔ store.Holds offset n ∧ bytes = store.bytes offset n := by
  constructor
  · intro run
    obtain ⟨rfl, held⟩ := readOnto_eq_ok run
    exact ⟨held, by simp⟩
  · rintro ⟨rfl | held, rfl⟩
    · simp [readExact, readOnto, Store.bytes]
    · exact readExact_of_held held

end Store

namespace View

/-- The bytes of a range of the view. -/
def bytes (view : View) (offset size : Nat) : Bytes := view.store.bytes (view.offset + offset) size

/-- Every byte of a range of the view can be read. -/
def Holds (view : View) (offset size : Nat) : Prop := view.store.Holds (view.offset + offset) size

@[simp] theorem length_bytes (view : View) (offset size : Nat) :
    (view.bytes offset size).length = size := view.store.length_bytes _ _

theorem bytes_append (view : View) (offset m n : Nat) :
    view.bytes offset m ++ view.bytes (offset + m) n = view.bytes offset (m + n) := by
  rw [bytes, bytes, ← Nat.add_assoc, view.store.bytes_append, bytes]

/-- Ranges that follow each other are one range. -/
theorem bytes_join (view : View) {first middle last : Nat} (le : first ≤ middle)
    (le' : middle ≤ last) :
    view.bytes first (middle - first) ++ view.bytes middle (last - middle) =
      view.bytes first (last - first) := by
  have joined := view.bytes_append first (middle - first) (last - middle)
  have size : middle - first + (last - middle) = last - first := by omega
  rwa [Nat.add_sub_of_le le, size] at joined

theorem drop_bytes (view : View) (offset n k : Nat) :
    (view.bytes offset n).drop k = view.bytes (offset + k) (n - k) := by
  rw [bytes, view.store.drop_bytes, Nat.add_assoc, bytes]

theorem take_bytes (view : View) {offset n k : Nat} (le : k ≤ n) :
    (view.bytes offset n).take k = view.bytes offset k := view.store.take_bytes le

/-- The view has the given bytes at an offset. -/
def Has (view : View) (offset : Nat) (bytes : Bytes) : Prop :=
  view.bytes offset bytes.length = bytes

theorem has_bytes (view : View) (offset n : Nat) : view.Has offset (view.bytes offset n) := by
  rw [Has, length_bytes]

theorem has_append_iff {view : View} {offset : Nat} {front back : Bytes} :
    view.Has offset (front ++ back) ↔
      view.Has offset front ∧ view.Has (offset + front.length) back := by
  rw [Has, List.length_append, ← view.bytes_append]
  constructor
  · intro h
    exact List.append_inj h (view.length_bytes _ _)
  · rintro ⟨first, second⟩
    rw [first, second]

/-- A part of what stands at an offset. -/
theorem Has.part {view : View} {offset : Nat} {bytes : Bytes} (h : view.Has offset bytes)
    (k n : Nat) (inside : k + n ≤ bytes.length) :
    view.bytes (offset + k) n = (bytes.drop k).take n := by
  calc view.bytes (offset + k) n
    _ = ((view.bytes offset bytes.length).drop k).take n := by
      rw [view.drop_bytes, view.take_bytes (by omega)]
    _ = (bytes.drop k).take n := by rw [h]

theorem Holds.mono {view : View} {offset n start m : Nat} (h : view.Holds offset n)
    (first : offset ≤ start) (last : start + m ≤ offset + n) : view.Holds start m :=
  Store.Holds.mono h (by omega) (by omega)

theorem Holds.append {view : View} {offset m n : Nat} (front : view.Holds offset m)
    (back : view.Holds (offset + m) n) : view.Holds offset (m + n) :=
  Store.Holds.append front (by rwa [Nat.add_assoc])

theorem checkRange_eq_ok_iff {view : View} {offset size : Nat} :
    view.checkRange offset size = .ok () ↔ offset + size ≤ view.size := by
  unfold checkRange
  split <;> simp_all

/-- A slice is taken exactly if it lies inside; it is the range and nothing else. -/
theorem slice_eq_ok_iff {view part : View} {offset size : Nat} :
    view.slice offset size = .ok part ↔
      offset + size ≤ view.size ∧ part.store = view.store ∧ part.offset = view.offset + offset ∧
        part.size = size := by
  unfold slice
  split
  · next fits =>
    constructor
    · rintro ⟨⟩
      exact ⟨fits, rfl, rfl, rfl⟩
    · obtain ⟨store, start, length, inside⟩ := part
      rintro ⟨_, rfl, rfl, rfl⟩
      rfl
  · next out =>
    constructor
    · intro h; cases h
    · rintro ⟨fits, _⟩
      exact absurd fits out

theorem bytes_of_slice {view part : View} {start size : Nat}
    (h : view.slice start size = .ok part) (offset n : Nat) :
    part.bytes offset n = view.bytes (start + offset) n := by
  obtain ⟨_, store, place, _⟩ := slice_eq_ok_iff.1 h
  rw [bytes, bytes, store, place, Nat.add_assoc]

theorem has_of_slice {view part : View} {start size : Nat}
    (h : view.slice start size = .ok part) {offset : Nat} {bytes : Bytes} :
    part.Has offset bytes ↔ view.Has (start + offset) bytes := by
  rw [Has, bytes_of_slice h, Has]

theorem copy_eq_ok_iff {view : View} {offset size : Nat} {bytes : Bytes} :
    view.copy offset size = .ok bytes ↔
      offset + size ≤ view.size ∧ view.Holds offset size ∧ bytes = view.bytes offset size := by
  unfold copy checkRange
  split
  · next fits =>
    simp only [fits, true_and]
    exact Store.readExact_eq_ok_iff
  · next out =>
    constructor
    · intro h; cases h
    · rintro ⟨fits, _⟩
      exact absurd fits out

theorem read_eq_ok_iff {view : View} {offset size : Nat} {bytes : Bytes} :
    view.read offset size = .ok bytes ↔
      offset + size ≤ view.size ∧ size ≤ maxBufferSize ∧ view.Holds offset size ∧
        bytes = view.bytes offset size := by
  -- The range is checked before the size, so a range outside is the error of a large read, too.
  have bind : view.read offset size =
      if maxBufferSize < size then
        (view.checkRange offset size).bind fun _ => .error (.range offset size view.size)
      else view.copy offset size := by
    unfold read copy
    split <;> rfl
  rw [bind]
  split
  · next large =>
    constructor
    · unfold checkRange
      split <;> intro h <;> cases h
    · rintro ⟨_, small, _⟩
      omega
  · next small =>
    rw [copy_eq_ok_iff]
    simp only [Nat.le_of_not_lt small, true_and]

/-! ### Complete copies of a byte string -/

/-- The view is all of a byte string, and every byte of it can be read. -/
structure Shows (view : View) (bytes : Bytes) : Prop where
  size : view.size = bytes.length
  holds : view.Holds 0 view.size
  contents : view.bytes 0 view.size = bytes

namespace Shows

variable {view : View} {bytes : Bytes}

theorem bytes_eq (h : view.Shows bytes) {offset n : Nat} (inside : offset + n ≤ bytes.length) :
    view.bytes offset n = (bytes.drop offset).take n := by
  have whole := h.contents
  have size := h.size
  rw [← whole, view.drop_bytes, Nat.zero_add, view.take_bytes (by omega)]

theorem holds_range (h : view.Shows bytes) {offset n : Nat} (inside : offset + n ≤ bytes.length) :
    view.Holds offset n :=
  h.holds.mono (Nat.zero_le _) (by have := h.size; omega)

/-- What stands in the middle of the string is there in the view. -/
theorem has (h : view.Shows bytes) {front middle back : Bytes}
    (split : bytes = front ++ (middle ++ back)) : view.Has front.length middle := by
  rw [Has, h.bytes_eq (by rw [split]; simp), split, List.drop_left, List.take_left]

/-- What the string begins with is at the start of the view. -/
theorem has_front {front back : Bytes} (h : view.Shows (front ++ back)) : view.Has 0 front := by
  rw [Has, h.bytes_eq (by simp), List.drop_zero, List.take_left]

theorem read (h : view.Shows bytes) (offset n : Nat) (inside : offset + n ≤ bytes.length)
    (small : n ≤ maxBufferSize) : view.read offset n = .ok (view.bytes offset n) :=
  read_eq_ok_iff.2 ⟨by have := h.size; omega, small, h.holds_range inside, rfl⟩

theorem slice (h : view.Shows bytes) (offset n : Nat) (inside : offset + n ≤ bytes.length) :
    ∃ part, view.slice offset n = .ok part ∧ part.Shows ((bytes.drop offset).take n) := by
  have size := h.size
  have fits : offset + n ≤ view.size := by omega
  refine ⟨⟨view.store, view.offset + offset, n, by have := view.inside; omega⟩, ?_, ?_, ?_, ?_⟩
  · exact slice_eq_ok_iff.2 ⟨fits, rfl, rfl, rfl⟩
  · simp only [List.length_take, List.length_drop]
    omega
  · exact h.holds_range inside
  · exact h.bytes_eq inside

end Shows

theorem shows_ofByteArray (data : ByteArray) : (ofByteArray data).Shows data.data.toList where
  size := by simp [ofByteArray, ofStore, Store.ofByteArray, Store.ofByteArrayClaiming]
  holds := Or.inr (by simp [ofByteArray, ofStore, Store.ofByteArray, Store.ofByteArrayClaiming])
  contents := by
    apply List.ext_getElem
    · simp [ofByteArray, ofStore, Store.ofByteArray, Store.ofByteArrayClaiming]
    · intro i _ inside
      have held : i < data.size := by simpa using inside
      simp [bytes, Store.bytes, ofByteArray, ofStore, Store.ofByteArray,
        Store.ofByteArrayClaiming, held, ByteArray.getElem_eq_getElem_data]

theorem shows_ofBytes (data : Bytes) : (ofBytes data).Shows data := by
  have h := shows_ofByteArray data.toByteArray
  rwa [List.data_toByteArray, List.toList_toArray] at h

end View
end ApkArchive

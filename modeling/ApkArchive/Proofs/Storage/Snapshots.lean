import ApkArchive.Proofs.Storage.Stream
import ApkArchive.Storage.Output

/-!
# What snapshots show

An output in memory and an output file are used in the same way: they take chunks, they are flushed,
and snapshots are made of them. What has been taken may be in two places, but it is always the
chunks in their order, and what has reached the place that is read back only grows at its end:

    bytes (output after operations) = all chunks of the operations
    settled output <+: settled (output after operations)

So a snapshot, which has the size that the output had when it was made, shows at any later time what
had been taken by then.
-/

namespace ApkArchive

/-! ### Views of a known byte string -/

namespace View

/-- Every way to read the view gives the parts of a byte string. -/
structure ReadsAs (view : View) (bytes : Bytes) : Prop where
  size : view.size = bytes.length
  copied : ∀ offset n, view.copy offset n =
    if offset + n ≤ bytes.length then .ok ((bytes.drop offset).take n)
    else .error (.range offset n bytes.length)
  fed : ∀ offset n, offset + n ≤ bytes.length →
    view.feed offset n = Sink.stream ((bytes.drop offset).take n)
  buffered : bytes.length ≤ maxBufferSize → view.toBytes = .ok bytes

theorem Shows.readsAs {view : View} {bytes : Bytes} (shows : view.Shows bytes) :
    view.ReadsAs bytes where
  size := shows.size
  copied offset n := by
    split
    · next inside =>
      refine copy_eq_ok_iff.2 ⟨?_, shows.holds_range inside, (shows.bytes_eq inside).symm⟩
      rw [shows.size]
      exact inside
    · next outside =>
      rw [copy, checkRange, shows.size, if_neg outside]
      rfl
  fed offset n inside := by
    have fits : offset + n ≤ view.size := by
      rw [shows.size]
      exact inside
    rw [feed_of_holds fits (shows.holds_range inside), shows.bytes_eq inside]
  buffered small := by
    have all : 0 + view.size ≤ bytes.length := Nat.le_of_eq (by rw [Nat.zero_add, shows.size])
    rw [toBytes, shows.read 0 view.size all (by rw [shows.size]; exact small), shows.contents]

/-- A file that has grown since still shows what it began with. -/
theorem shows_ofFile {contents : ByteArray} {front : Bytes}
    (begins : front <+: contents.data.toList) :
    (ofStore (.ofFile front.length contents)).Shows front where
  size := rfl
  holds := by
    have size : front.length ≤ contents.size := by simpa using begins.length_le
    exact .inr (by simp [ofStore, Store.ofFile, Store.ofByteArrayClaiming, size])
  contents := by
    have size : front.length ≤ contents.size := by simpa using begins.length_le
    apply List.ext_getElem
    · simp [ofStore, Store.ofFile, Store.ofByteArrayClaiming]
    · intro i _ inside
      have held : i < contents.size := by omega
      simp [bytes, Store.bytes, ofStore, Store.ofFile, Store.ofByteArrayClaiming, held,
        ByteArray.getElem_eq_getElem_data, begins.getElem inside]

end View

namespace Output

/-! ### Using an output -/

/-- What can be done with an output. -/
inductive Operation
  | consume (chunk : ByteArray)
  | flush
  | snapshot

/-- The bytes that an operation brings. -/
def Operation.bytes : Operation → Bytes
  | consume chunk => chunk.data.toList
  | _ => []

/-- The bytes that some operations bring. -/
def taken (operations : List Operation) : Bytes := operations.flatMap Operation.bytes

/-- The output after an operation. -/
def perform (output : Output) : Operation → Output
  | .consume chunk => output.consume chunk
  | .flush => output.flush
  | .snapshot => output.snapshot.1

/-- What has reached the place that is read back. -/
def settled : Output → Bytes
  | memory contents => contents.data.toList
  | file f => f.stored.data.toList

/-- What has been taken: what has reached that place, and what is waiting in the buffer. -/
def bytes : Output → Bytes
  | memory contents => contents.data.toList
  | file f => f.stored.data.toList ++ f.pending.data.toList

/-- The output has become `later`, and it has taken a chunk on the way. -/
structure Takes (output : Output) (chunk : Bytes) (later : Output) : Prop where
  bytes : later.bytes = output.bytes ++ chunk
  position : later.position = output.position + chunk.length
  grows : output.settled <+: later.settled

namespace Takes

variable {output mid later : Output} {first second : Bytes}

theorem refl (output : Output) : output.Takes [] output :=
  ⟨(List.append_nil _).symm, rfl, List.prefix_refl _⟩

theorem trans (h : output.Takes first mid) (rest : mid.Takes second later) :
    output.Takes (first ++ second) later where
  bytes := by rw [rest.bytes, h.bytes, List.append_assoc]
  position := by rw [rest.position, h.position, List.length_append, Nat.add_assoc]
  grows := h.grows.trans rest.grows

end Takes

/-! ### One operation -/

theorem takes_flush (output : Output) : output.Takes [] output.flush := by
  cases output with
  | memory contents => exact .refl _
  | file f =>
    refine ⟨?_, rfl, ?_⟩
    · simp [bytes, flush, BufferedFile.flush]
    · simp [settled, flush, BufferedFile.flush]

/-- A write takes the first few bytes of a chunk. -/
theorem takes_write (f : BufferedFile) (chunk : ByteArray) :
    (file f).Takes (chunk.data.toList.take (f.write chunk).2) (file (f.write chunk).1) := by
  unfold BufferedFile.write
  dsimp only
  generalize room : (if BufferedFile.capacity < f.pending.size + chunk.size then f.flush else f) = g
  have before : (file f).Takes [] (file g) := by
    rw [← room]
    split
    · exact takes_flush (file f)
    · exact .refl _
  refine before.trans ?_
  split
  · next large =>
    -- What is as large as the buffer fits beside nothing, so nothing is left in the buffer.
    have empty : g.pending.data.toList = [] := by
      rw [← room]
      split
      · rfl
      · next fits =>
        have none : f.pending.size = 0 := by omega
        exact List.length_eq_zero_iff.1 (by simpa using none)
    have size : min chunk.size (g.stride g.stored.size) ≤ chunk.data.toList.length :=
      Nat.le_trans (Nat.min_le_left ..) (Nat.le_of_eq (by simp))
    refine ⟨?_, ?_, ?_⟩
    · simp [bytes, empty, List.extract]
    · simp [position, BufferedFile.position]
    · simp [settled]
  · next small =>
    have all : chunk.data.toList.take chunk.size = chunk.data.toList :=
      List.take_of_length_le (by simp)
    refine ⟨?_, ?_, ?_⟩
    · simp [bytes, all]
    · simp [position, BufferedFile.position]
    · simp [settled]

theorem takes_consume_file (f : BufferedFile) (chunk : ByteArray) :
    (file f).Takes chunk.data.toList (file (f.consume chunk)) := by
  fun_induction BufferedFile.consume f chunk with
  | case1 f chunk empty =>
    have none : chunk.data.toList = [] := List.length_eq_zero_iff.1 (by simpa using empty)
    rw [none]
    exact .refl _
  | case2 f chunk some_left after ih =>
    have rest : (chunk.extract after.2 chunk.size).data.toList =
        chunk.data.toList.drop after.2 := by
      rw [ByteArray.data_extract, Array.toList_extract, List.extract, List.take_of_length_le]
      simp
    have taken := (takes_write f chunk).trans ih
    rwa [rest, List.take_append_drop] at taken

theorem takes_perform (output : Output) (operation : Operation) :
    output.Takes operation.bytes (output.perform operation) := by
  cases operation with
  | flush => exact takes_flush output
  | consume chunk =>
    cases output with
    | memory contents =>
      refine ⟨?_, ?_, ?_⟩
      · simp [bytes, perform, consume, Operation.bytes]
      · simp [position, perform, consume, Operation.bytes]
      · simp [settled, perform, consume]
    | file f => exact takes_consume_file f chunk
  | snapshot =>
    -- A snapshot only flushes.
    have same : output.snapshot.1 = output.flush := by cases output <;> rfl
    rw [perform, same]
    exact takes_flush output

/-! ### Operations in a row -/

theorem takes_foldl (output : Output) (operations : List Operation) :
    output.Takes (taken operations) (operations.foldl perform output) := by
  induction operations generalizing output with
  | nil => exact .refl _
  | cons first rest ih => exact (takes_perform output first).trans (ih _)

/-- What a file has begun with is still there. -/
theorem shows_extent {later : Output} {front : Bytes} (begins : front <+: later.settled) :
    (later.view (.extent front.length)).Shows front := by
  cases later with
  | memory contents => exact View.shows_ofFile begins
  | file f => exact View.shows_ofFile begins

/-- A snapshot shows what had been taken when it was made, whatever the output has become. -/
theorem shows_snapshot {output later : Output} {chunk : Bytes}
    (since : output.snapshot.1.Takes chunk later) :
    (later.view output.snapshot.2).Shows output.bytes := by
  cases output with
  | memory contents => exact View.shows_ofByteArray contents
  | file f =>
    have begins : (file f).bytes <+: later.settled := by
      have grows := since.grows
      simpa [settled, snapshot, BufferedFile.flush, bytes] using grows
    have size : f.flush.stored.size = (file f).bytes.length := by
      simp [BufferedFile.flush, bytes]
    show (later.view (.extent f.flush.stored.size)).Shows _
    rw [size]
    exact shows_extent begins

/-- A snapshot has no bytes beyond its size, not even for a reader that ignores the size. -/
theorem held_view_le (output : Output) (made : Snapshot) :
    (output.view made).store.held ≤ (output.view made).size := by
  cases made with
  | copy contents => exact Nat.le_refl _
  | extent size =>
    cases output with
    | memory contents => exact Nat.min_le_left ..
    | file f => exact Nat.min_le_left ..

/-- What is known of an output that was blank and has been used. -/
structure Faithful (start : Output) (operations : List Operation) : Prop where
  position : (operations.foldl perform start).position = (taken operations).length
  final : (operations.foldl perform start).flush.settled = taken operations
  /-- A snapshot that was made at any time on the way has the size that the output had then, and it
  reads as what had been taken then. -/
  snapshot : ∀ before after, operations = before ++ .snapshot :: after →
    let made := (before.foldl perform start).snapshot.2
    let view := (operations.foldl perform start).view made
    view.size = (before.foldl perform start).position ∧ view.store.held ≤ view.size ∧
      view.ReadsAs (taken before)

theorem faithful_of_blank {start : Output} (empty : start.bytes = []) (zero : start.position = 0)
    (operations : List Operation) : Faithful start operations := by
  have used (operations : List Operation) :
      (operations.foldl perform start).bytes = taken operations ∧
        (operations.foldl perform start).position = (taken operations).length := by
    have takes := takes_foldl start operations
    rw [takes.bytes, takes.position, empty, zero, List.nil_append, Nat.zero_add]
    exact ⟨rfl, rfl⟩
  refine ⟨(used operations).2, ?_, ?_⟩
  · have flushed : (operations.foldl perform start).flush.settled =
        (operations.foldl perform start).bytes := by
      cases operations.foldl perform start with
      | memory contents => rfl
      | file f => simp [flush, BufferedFile.flush, settled, bytes]
    rw [flushed, (used operations).1]
  · rintro before after rfl made view
    have since : (before.foldl perform start).snapshot.1.Takes (taken after)
        ((before ++ .snapshot :: after).foldl perform start) := by
      rw [List.foldl_append, List.foldl_cons]
      exact takes_foldl _ after
    have shows := shows_snapshot since
    rw [(used before).1] at shows
    refine ⟨?_, held_view_le _ _, shows.readsAs⟩
    rw [shows.size, (used before).2]

/-- Whatever is done with them, an output in memory and an output file count and keep the same
bytes, those that they were given, in whatever portions the file takes them. A snapshot of either
shows at any later time what had been taken when it was made. -/
theorem outputs_agree {stride : Nat → Nat} (advances : ∀ size, 0 < stride size)
    (operations : List Operation) :
    Faithful (.memory .empty) operations ∧ Faithful (.file { stride, advances }) operations ∧
      (operations.foldl perform (.memory .empty)).contents =
        (operations.foldl perform (.file { stride, advances })).contents := by
  have inMemory : Faithful (.memory .empty) operations := faithful_of_blank rfl rfl operations
  have inFile : Faithful (.file { stride, advances }) operations :=
    faithful_of_blank rfl rfl operations
  have contents (output : Output) : output.contents.data.toList = output.flush.settled := by
    cases output <;> rfl
  refine ⟨inMemory, inFile, ByteArray.ext (Array.toList_inj.1 ?_)⟩
  rw [contents, contents, inMemory.final, inFile.final]

/-- A file that takes a thousand bytes at once gets a chunk that does not fit into the buffer, after
a snapshot was made of what was in the buffer. -/
theorem outputs_agree_large_chunk :
    let operations := [.consume ⟨#[1, 2]⟩, .snapshot, .consume ⟨Array.replicate 70000 3⟩, .flush]
    let start := Output.file { stride := fun _ => 1000, advances := fun _ => Nat.succ_pos 999 }
    let made := (start.perform (.consume ⟨#[1, 2]⟩)).snapshot.2
    (∀ size, 0 < (fun _ : Nat => 1000) size) ∧ Faithful (.memory .empty) operations ∧
      Faithful start operations ∧
      ((operations.foldl perform start).view made).toBytes = .ok [1, 2] ∧
      (operations.foldl perform (.memory .empty)).contents =
        (operations.foldl perform start).contents := by
  intro operations start made
  obtain ⟨inMemory, inFile, same⟩ := outputs_agree (fun _ => Nat.succ_pos 999) operations
  obtain ⟨-, -, reads⟩ := inFile.snapshot [.consume ⟨#[1, 2]⟩] _ rfl
  exact ⟨fun _ => Nat.succ_pos 999, inMemory, inFile, reads.buffered (by decide), same⟩

end Output
end ApkArchive

import ApkArchive.Proofs.Storage.Ensures

/-!
# All ways to read a range agree

A range is read into a buffer or streamed into a sink, out of memory or by reads that may be short.
Every way that succeeds gives the bytes that the store has there. Streaming is one sequence of
writes, the pieces of the range, and a store that has to be read differs from one in memory only
where bytes are missing:

    held:     feed = write all pieces
    missing:  feed = fail                                     in memory
              feed = write the pieces before the gap, fail    by reads

A run never goes back, so it reads at each offset at most once. A stride for each offset therefore
stands for any sequence of short reads.
-/

namespace ApkArchive

/-! ### Runs that stop -/

theorem throw_bind (e : ε) (f : α → EStateM ε σ β) :
    (throw e : EStateM ε σ α) >>= f = throw e := rfl

theorem ofExcept_error_bind (e : ε) (f : α → EStateM ε σ β) :
    (ofExcept (.error e) : EStateM ε σ α) >>= f = throw e := rfl

/-! ### Reads that fail -/

namespace Store

variable {store : Store} {offset n : Nat}

/-- Reading gets as far as the store has bytes and stops there, or at once if it begins beyond. -/
theorem readOnto_of_missing (front : Array UInt8) (some_left : 0 < n)
    (missing : store.held < offset + n) :
    store.readOnto front offset n = .error (.storage (.endedEarly (max offset store.held))) := by
  fun_induction readOnto store front offset n with
  | case1 => omega
  | case2 front offset n _ got stuck =>
    have : ¬ offset < store.held := by
      intro held
      have : 0 < store.stride offset := store.advances offset held
      simp only [got, delivered] at stuck
      omega
    rw [Nat.max_eq_left (Nat.le_of_not_lt this)]
  | case3 front offset n _ got progress ih =>
    have le : got ≤ store.held - offset := by simp only [got, delivered]; omega
    rw [ih (by omega) (by omega), Nat.max_eq_right (by omega), Nat.max_eq_right (by omega)]

theorem readExact_of_missing (some_left : 0 < n) (missing : store.held < offset + n) :
    store.readExact offset n = .error (.storage (.endedEarly (max offset store.held))) :=
  readOnto_of_missing #[] some_left missing

end Store

/-! ### Writes that fail -/

namespace Sink

variable {front : Bytes}

/-- However a sequence of writes ends, the sink has taken the first few of them. -/
theorem ensures_forM (pieces : List Bytes) :
    Ensures (fun sink => sink.bytes = front) (pieces.forM write)
      (fun _ sink => sink.bytes = front ++ pieces.flatten)
      (fun error sink => (∃ fault, error = .storage fault) ∧
        ∃ taken, taken <+: pieces ∧ sink.bytes = front ++ taken.flatten) := by
  induction pieces generalizing front with
  | nil =>
    refine (Ensures.pure ()).post fun _ sink post => ?_
    rw [List.flatten_nil, List.append_nil]
    exact post.2
  | cons piece rest ih =>
    refine Ensures.bind (Q := fun _ sink => sink.bytes = front ++ piece) ?_ fun _ => ?_
    · refine (ensures_write front piece).weaken (fun _ pre => pre) (fun _ _ post => post) ?_
      rintro error sink ⟨fault, -, bytes⟩
      exact ⟨fault, [], List.nil_prefix, by rw [bytes, List.flatten_nil, List.append_nil]⟩
    · refine ih.weaken (fun _ pre => pre) (fun _ sink post => ?_) ?_
      · rw [post, List.flatten_cons, List.append_assoc]
      · rintro error sink ⟨fault, taken, le, bytes⟩
        refine ⟨fault, piece :: taken, (List.prefix_cons_inj piece).2 le, ?_⟩
        rw [bytes, List.flatten_cons, List.append_assoc]

end Sink

/-! ### The pieces of a range -/

namespace Bytes

/-- `pieces` are all of `data`, 65536 bytes in each of them but the last one, which has the rest. -/
structure Cut (data : Bytes) (pieces : List Bytes) : Prop where
  whole : pieces.flatten = data
  full : ∀ piece ∈ pieces.dropLast, piece.length = 65536
  rest : ∀ piece ∈ pieces.getLast?, 0 < piece.length ∧ piece.length ≤ 65536

theorem chunked_eq_nil_iff {data : Bytes} : data.chunked = [] ↔ data = [] := by
  rw [chunked]
  split <;> simp [*]

theorem cut_chunked (data : Bytes) : data.Cut data.chunked where
  whole := flatten_chunked data
  full := by
    fun_induction chunked data with
    | case1 =>
      intro piece mem
      cases mem
    | case2 data _ ih =>
      by_cases done : Bytes.chunked (data.drop View.chunkSize) = []
      · rw [done]
        intro piece mem
        cases mem
      -- After a piece that is not full there is no other one.
      · rw [List.dropLast_cons_of_ne_nil done, List.forall_mem_cons]
        have more : data.drop View.chunkSize ≠ [] := mt chunked_eq_nil_iff.2 done
        rw [ne_eq, List.drop_eq_nil_iff] at more
        exact ⟨List.length_take_of_le (Nat.le_of_not_le more), ih⟩
  rest := by
    fun_induction chunked data with
    | case1 =>
      intro piece last
      cases last
    | case2 data some_left ih =>
      intro piece last
      rw [List.getLast?_cons, Option.mem_some_iff] at last
      cases before : (Bytes.chunked (data.drop View.chunkSize)).getLast? with
      | some other =>
        rw [before, Option.getD_some] at last
        exact last ▸ ih other before
      | none =>
        rw [before, Option.getD_none] at last
        have : 0 < data.length := List.length_pos_iff.2 some_left
        rw [← last, List.length_take, View.chunkSize]
        omega

/-- There are more pieces than full ones, unless the last one is full as well. -/
theorem lt_length_chunked {data : Bytes} {k : Nat} (lt : k * View.chunkSize < data.length) :
    k < data.chunked.length := by
  induction k generalizing data with
  | zero =>
    rw [List.length_pos_iff, ne_eq, chunked_eq_nil_iff, ← List.length_eq_zero_iff]
    omega
  | succ k ih =>
    have some_left : data ≠ [] := by
      rintro rfl
      exact absurd lt (Nat.not_lt_zero _)
    rw [chunked, if_neg some_left, List.length_cons]
    refine Nat.succ_lt_succ (ih ?_)
    rw [List.length_drop]
    rw [Nat.succ_mul] at lt
    omega

end Bytes

/-! ### Streaming what is not all there -/

namespace View

variable {store : Store} {start size : Nat}

/-- The first piece of a range, and the pieces of the rest. -/
theorem chunked_bytes (some_left : size ≠ 0) :
    (store.bytes start size).chunked = store.bytes start (min chunkSize size) ::
      (store.bytes (start + chunkSize) (size - chunkSize)).chunked := by
  rw [← map_chunks, ← map_chunks, chunks, if_neg some_left, List.map_cons]

/-- The pieces that are held are written, up to the first one that is not. -/
theorem forM_writeChunk_of_missing (positional : store.contiguous = false) (some_left : 0 < size)
    (missing : store.held < start + size) :
    (chunks start size).forM (writeChunk store) = (do
      ((store.bytes start size).chunked.take ((store.held - start) / chunkSize)).forM Sink.write
      throw (.storage (.endedEarly (max start store.held)))) := by
  fun_induction chunks start size with
  | case1 => cases some_left
  | case2 start size nonzero ih =>
    simp only [List.forM_eq_forM] at ih ⊢
    rw [chunked_bytes nonzero, List.forM_cons]
    rcases Nat.lt_or_ge (store.held - start) chunkSize with short | full
    -- The first piece is the one that is not held.
    · have stuck : store.readExact start (min chunkSize size) = _ :=
        Store.readExact_of_missing (by simp only [chunkSize]; omega) (by omega)
      rw [Nat.div_eq_of_lt short, List.take_zero, List.forM_nil, pure_bind, writeChunk, positional,
        if_neg Bool.false_ne_true, stuck, ofExcept_error_bind, throw_bind]
    · have positive : 0 < chunkSize := Nat.zero_lt_succ _
      have held : writeChunk store (start, min chunkSize size) =
          Sink.write (store.bytes start (min chunkSize size)) :=
        writeChunk_of_holds (.inr (by dsimp only; omega))
      have count : (store.held - start) / chunkSize =
          (store.held - (start + chunkSize)) / chunkSize + 1 := by
        rw [Nat.div_eq_sub_div positive full, Nat.sub_add_eq]
      have place : max (start + chunkSize) store.held = max start store.held := by omega
      rw [held, count, List.take_succ_cons, List.forM_cons, bind_assoc, ih (by omega) (by omega),
        place]

/-! ### The paths -/

/-- The same view of a store that lies in memory, or of one that has to be read. -/
def onPath (view : View) (contiguous : Bool) : View :=
  { view with store := { view.store with contiguous } }

variable {view : View} {offset : Nat}

theorem feed_of_inside (inside : offset + size ≤ view.size) :
    view.feed offset size =
      if view.store.contiguous && size ≠ 0 && view.store.held < view.offset + offset + size then
        throw (.storage (.endedEarly (view.offset + offset)))
      else (chunks (view.offset + offset) size).forM (writeChunk view.store) := by
  rw [feed_eq, checkRange_eq_ok_iff.2 inside]
  rfl

/-- Memory knows beforehand what is missing. -/
theorem feed_of_missing_memory (view : View) (inside : offset + size ≤ view.size)
    (some_left : 0 < size) (missing : view.store.held < view.offset + offset + size)
    (memory : view.store.contiguous = true) :
    view.feed offset size = throw (.storage (.endedEarly (view.offset + offset))) := by
  rw [feed_of_inside inside, memory, if_pos]
  simp only [Bool.true_and, Bool.and_eq_true, decide_eq_true_eq]
  exact ⟨Nat.ne_of_gt some_left, missing⟩

theorem feed_of_missing_positional (view : View) (inside : offset + size ≤ view.size)
    (some_left : 0 < size) (missing : view.store.held < view.offset + offset + size)
    (positional : view.store.contiguous = false) :
    view.feed offset size = (do
      ((view.bytes offset size).chunked.take
        ((view.store.held - (view.offset + offset)) / chunkSize)).forM Sink.write
      throw (.storage (.endedEarly (max (view.offset + offset) view.store.held)))) := by
  rw [feed_of_inside inside, positional, if_neg (by simp),
    forM_writeChunk_of_missing positional some_left missing]
  rfl

theorem copy_of_missing (inside : offset + size ≤ view.size) (some_left : 0 < size)
    (missing : view.store.held < view.offset + offset + size) :
    view.copy offset size =
      .error (.storage (.endedEarly (max (view.offset + offset) view.store.held))) := by
  rw [copy, checkRange_eq_ok_iff.2 inside]
  exact Store.readExact_of_missing some_left missing

theorem read_eq_copy (small : size ≤ maxBufferSize) :
    view.read offset size = view.copy offset size := by
  rw [read, copy]
  simp only [Nat.not_lt.2 small, if_false]

theorem read_of_large (inside : offset + size ≤ view.size) (large : maxBufferSize < size) :
    view.read offset size = .error (.range offset size view.size) := by
  rw [read, checkRange_eq_ok_iff.2 inside]
  simp only [large, if_true]
  rfl

theorem holds_or_missing (view : View) (offset size : Nat) :
    view.Holds offset size ∨ 0 < size ∧ view.store.held < view.offset + offset + size := by
  rw [Holds, Store.Holds]
  omega

/-- However a range is streamed, what stops it is the storage, of the store or of the sink, and the
sink has taken the first few pieces. -/
theorem ensures_feed (view : View) (inside : offset + size ≤ view.size) (front : Bytes) :
    Ensures (fun sink => sink.bytes = front) (view.feed offset size)
      (fun _ sink => sink.bytes = front ++ view.bytes offset size)
      (fun error sink => (∃ fault, error = .storage fault) ∧
        ∃ taken, taken <+: (view.bytes offset size).chunked ∧
          sink.bytes = front ++ taken.flatten) := by
  rcases view.holds_or_missing offset size with held | ⟨some_left, missing⟩
  · rw [feed_of_holds inside held]
    refine (Sink.ensures_forM _).post fun _ sink post => ?_
    rw [post, Bytes.flatten_chunked]
  · cases path : view.store.contiguous with
    | true =>
      rw [view.feed_of_missing_memory inside some_left missing path]
      refine Ensures.throw fun sink before => ⟨⟨_, rfl⟩, [], List.nil_prefix, ?_⟩
      rw [before, List.flatten_nil, List.append_nil]
    | false =>
      rw [view.feed_of_missing_positional inside some_left missing path]
      refine Ensures.bind
        ((Sink.ensures_forM _).weaken (fun _ pre => pre) (fun _ _ post => post) ?_)
        fun _ => Ensures.throw fun sink before => ⟨⟨_, rfl⟩, _, List.take_prefix _ _, before⟩
      rintro error sink ⟨fault, taken, le, bytes⟩
      exact ⟨fault, taken, le.trans (List.take_prefix _ _), bytes⟩

/-- What is known of a range however it is read, in terms of what the store has. -/
structure PathsAgree (view : View) (offset size : Nat) : Prop where
  fed : ∀ sink sink' u, view.feed offset size sink = .ok u sink' →
    sink'.bytes = sink.bytes ++ view.store.bytes (view.offset + offset) size
  copied : ∀ bytes, view.copy offset size = .ok bytes →
    bytes = view.store.bytes (view.offset + offset) size
  buffered : ∀ bytes, view.read offset size = .ok bytes →
    bytes = view.store.bytes (view.offset + offset) size
  /-- Both paths write the same pieces if nothing is missing, so no sink can tell them apart. If
  something is missing, memory fails first, and reading writes the pieces that are held. -/
  streamed : ∃ pieces, Bytes.Cut (view.store.bytes (view.offset + offset) size) pieces ∧
    (view.store.size ≤ view.store.held →
      ∀ contiguous, (view.onPath contiguous).feed offset size = pieces.forM Sink.write) ∧
    (∀ contiguous sink error sink',
      (view.onPath contiguous).feed offset size sink = .error error sink' →
      (∃ fault, error = .storage fault) ∧
        ∃ taken, taken <+: pieces ∧ sink'.bytes = sink.bytes ++ taken.flatten) ∧
    (0 < size → view.store.held < view.offset + offset + size →
      (view.onPath true).feed offset size =
        throw (.storage (.endedEarly (view.offset + offset))) ∧
      (view.store.held - (view.offset + offset)) / 65536 < pieces.length ∧
      (view.onPath false).feed offset size = (do
        (pieces.take ((view.store.held - (view.offset + offset)) / 65536)).forM Sink.write
        throw (.storage (.endedEarly (max (view.offset + offset) view.store.held)))))
  /-- A buffer is filled or the request fails; one larger than a buffer may be is out of range. -/
  missing : 0 < size → view.store.held < view.offset + offset + size →
    view.copy offset size =
      .error (.storage (.endedEarly (max (view.offset + offset) view.store.held))) ∧
    view.read offset size = if size ≤ 0x7FFFFFFF then
      .error (.storage (.endedEarly (max (view.offset + offset) view.store.held)))
      else .error (.range offset size view.size)

/-- Streaming and buffering, out of memory and by reads that may be short, agree on every range of
every view, on every sink. -/
theorem read_paths_agree (view : View) {offset size : Nat} (inside : offset + size ≤ view.size) :
    view.PathsAgree offset size where
  fed _ _ _ run := (view.emits_feed offset size run).2
  copied _ run := (copy_eq_ok_iff.1 run).2.2
  buffered _ run := (read_eq_ok_iff.1 run).2.2.2
  streamed := by
    refine ⟨(view.bytes offset size).chunked, Bytes.cut_chunked _, fun complete contiguous => ?_,
      fun contiguous sink _ _ run => ?_, fun some_left missing => ⟨?_, ?_, ?_⟩⟩
    · have held : (view.onPath contiguous).Holds offset size :=
        .inr (by have := view.inside; simp only [onPath]; omega)
      exact feed_of_holds inside held
    · exact ((view.onPath contiguous).ensures_feed inside sink.bytes).error rfl run
    · exact (view.onPath true).feed_of_missing_memory inside some_left missing rfl
    · refine Bytes.lt_length_chunked ?_
      have : (view.store.held - (view.offset + offset)) / 65536 * 65536 ≤
        view.store.held - (view.offset + offset) := Nat.div_mul_le_self _ _
      rw [length_bytes, chunkSize]
      omega
    · exact (view.onPath false).feed_of_missing_positional inside some_left missing rfl
  missing some_left missing := by
    refine ⟨copy_of_missing inside some_left missing, ?_⟩
    split
    · next small => rw [read_eq_copy small, copy_of_missing inside some_left missing]
    · next large => exact read_of_large inside (Nat.lt_of_not_le large)

/-- A file that has fewer bytes than it says, and delivers at most three of them per read. -/
theorem read_paths_agree_short_file :
    1 + 6 ≤ (ofStore (.trickling 3 9 ⟨#[1, 2, 3, 4]⟩)).size ∧
      PathsAgree (ofStore (.trickling 3 9 ⟨#[1, 2, 3, 4]⟩)) 1 6 :=
  ⟨by decide, read_paths_agree _ (by decide)⟩

end View
end ApkArchive

import ApkArchive.Proofs.Storage.Range
import ApkArchive.Storage.Sink

/-!
# What reaches a sink

A successful writer appends bytes to the sink and does nothing else to its contents. `Emits` names
the bytes, and the value that the writer returns. Streaming a range is the same sequence of
writes for every store that holds the range:

    feed offset size = stream (bytes offset size)
-/

namespace ApkArchive

/-! ### Runs of the state monad with errors -/

/-- A successful run of a sequence is a successful run of its first part and one of the rest. -/
theorem run_bind_eq_ok_iff {x : EStateM ε σ α} {f : α → EStateM ε σ β} {s s' : σ} {b : β} :
    (x >>= f) s = .ok b s' ↔ ∃ a mid, x s = .ok a mid ∧ f a mid = .ok b s' := by
  show EStateM.bind x f s = _ ↔ _
  unfold EStateM.bind
  constructor
  · intro run
    cases first : x s with
    | ok a mid =>
      rw [first] at run
      exact ⟨a, mid, rfl, run⟩
    | error e mid =>
      rw [first] at run
      cases run
  · rintro ⟨a, mid, first, rest⟩
    rw [first]
    exact rest

theorem run_bind_of_ok {x : EStateM ε σ α} {f : α → EStateM ε σ β} {s mid : σ} {a : α}
    (first : x s = .ok a mid) : (x >>= f) s = f a mid := by
  show EStateM.bind x f s = _
  unfold EStateM.bind
  rw [first]

theorem run_bind_of_error {x : EStateM ε σ α} {f : α → EStateM ε σ β} {s s' : σ} {e : ε}
    (first : x s = .error e s') : (x >>= f) s = .error e s' := by
  show EStateM.bind x f s = _
  unfold EStateM.bind
  rw [first]

theorem run_pure_eq_ok_iff {s s' : σ} {a b : α} :
    (pure a : EStateM ε σ α) s = .ok b s' ↔ a = b ∧ s = s' := by
  show EStateM.Result.ok a s = .ok b s' ↔ _
  rw [EStateM.Result.ok.injEq]

/-- What each step of a loop keeps, a successful loop keeps. -/
theorem run_foldlM_keeps {step : β → α → EStateM ε σ β} {I : β → σ → Prop}
    (keeps : ∀ {a b s b' s'}, I b s → step b a s = .ok b' s' → I b' s') {l : List α} {b b' : β}
    {s s' : σ} (holds : I b s) (run : l.foldlM step b s = .ok b' s') : I b' s' := by
  induction l generalizing b s with
  | nil =>
    obtain ⟨rfl, rfl⟩ := run_pure_eq_ok_iff.1 run
    exact holds
  | cons a rest ih =>
    rw [List.foldlM_cons] at run
    obtain ⟨next, mid, first, run⟩ := run_bind_eq_ok_iff.1 run
    exact ih (keeps holds first) run

theorem run_ofExcept_eq_ok_iff {result : Except ε α} {f : α → EStateM ε σ β} {s s' : σ} {b : β} :
    (ofExcept result >>= f) s = .ok b s' ↔ ∃ a, result = .ok a ∧ f a s = .ok b s' := by
  cases result with
  | ok a =>
    constructor
    · intro run; exact ⟨a, rfl, run⟩
    · rintro ⟨_, ⟨⟩, run⟩; exact run
  | error e =>
    constructor
    · intro run; cases run
    · rintro ⟨_, contra, _⟩; cases contra

theorem run_throw_ne_ok {e : ε} {s s' : σ} {a : α} :
    (throw e : EStateM ε σ α) s ≠ .ok a s' := by
  intro run
  cases run

/-- What stands after a guard is run if the guard lets it pass. -/
theorem run_guard_eq_ok {c : Prop} [Decidable c] {e : ε} {x : EStateM ε σ α} {s s' : σ} {a : α}
    (run : (if c then (do throw e; x) else x : EStateM ε σ α) s = .ok a s') :
    ¬ c ∧ x s = .ok a s' := by
  split at run
  · obtain ⟨_, _, thrown, _⟩ := run_bind_eq_ok_iff.1 run
    exact absurd thrown run_throw_ne_ok
  · next passes => exact ⟨passes, run⟩

/-! ### Writers -/

namespace Sink

/-- All bytes taken so far. -/
def bytes (sink : Sink) : Bytes := sink.contents.data.toList

@[simp] theorem position_eq (sink : Sink) : sink.position = sink.bytes.length := by
  simp [position, bytes]

/-- A successful run of `action` returns `a` and appends `written`. -/
def Emits (action : Emit α) (a : α) (written : Bytes) : Prop :=
  ∀ ⦃sink sink' : Sink⦄ ⦃b : α⦄, action sink = .ok b sink' →
    b = a ∧ sink'.bytes = sink.bytes ++ written

theorem emits_pure (a : α) : Emits (pure a) a [] := by
  intro sink sink' b run
  obtain ⟨rfl, rfl⟩ := run_pure_eq_ok_iff.1 run
  exact ⟨rfl, (List.append_nil _).symm⟩

theorem Emits.bind {action : Emit α} {next : α → Emit β} {a : α} {b : β} {first second : Bytes}
    (h : Emits action a first) (rest : Emits (next a) b second) :
    Emits (action >>= next) b (first ++ second) := by
  intro sink sink' c run
  obtain ⟨_, mid, run₁, run₂⟩ := run_bind_eq_ok_iff.1 run
  obtain ⟨rfl, written₁⟩ := h run₁
  obtain ⟨rfl, written₂⟩ := rest run₂
  exact ⟨rfl, by rw [written₂, written₁, List.append_assoc]⟩

theorem emits_write (chunk : Bytes) : Emits (write chunk) () chunk := by
  intro sink sink' _ run
  refine ⟨rfl, ?_⟩
  unfold write at run
  split at run
  · next empty =>
    cases run
    rw [List.isEmpty_iff.1 empty, List.append_nil]
  · split at run
    split at run
    · cases run
    · cases run
      simp [bytes]

/-- Writes one chunk after the other. -/
theorem emits_forM (chunks : List Bytes) : Emits (chunks.forM write) () chunks.flatten := by
  induction chunks with
  | nil => exact emits_pure ()
  | cons chunk rest ih =>
    rw [List.flatten_cons]
    exact (emits_write chunk).bind ih

/-- Every step of a successful loop has succeeded. -/
theorem run_forM_eq_ok {write : κ → Emit Unit} {chunks : List κ} {sink sink' : Sink} {u : Unit}
    (run : chunks.forM write sink = .ok u sink') :
    ∀ chunk ∈ chunks, ∃ before after, write chunk before = .ok () after := by
  induction chunks generalizing sink with
  | nil => intro chunk mem; cases mem
  | cons first rest ih =>
    obtain ⟨_, mid, head, tail⟩ := run_bind_eq_ok_iff.1 run
    intro chunk mem
    rcases List.mem_cons.1 mem with rfl | later
    · exact ⟨sink, mid, head⟩
    · exact ih tail chunk later

end Sink

/-! ### Streaming -/

/-- A byte string in pieces of 64 KiB; the last one may be shorter. -/
def Bytes.chunked (data : Bytes) : List Bytes :=
  if data = [] then []
  else data.take View.chunkSize :: chunked (data.drop View.chunkSize)
termination_by data.length
decreasing_by
  have : 0 < data.length := List.length_pos_iff.2 ‹_›
  simp only [List.length_drop, View.chunkSize]
  omega

theorem Bytes.flatten_chunked (data : Bytes) : data.chunked.flatten = data := by
  fun_induction chunked data with
  | case1 => rfl
  | case2 data _ ih => rw [List.flatten_cons, ih, List.take_append_drop]

/-- Writes a byte string in pieces of 64 KiB. -/
def Sink.stream (data : Bytes) : Emit Unit := data.chunked.forM write

theorem Sink.emits_stream (data : Bytes) : Emits (stream data) () data := by
  have h := emits_forM data.chunked
  rwa [data.flatten_chunked] at h

namespace View

/-- What the chunks of a range hold are the pieces of what the range holds. -/
theorem map_chunks (store : Store) (start size : Nat) :
    (chunks start size).map (fun chunk => store.bytes chunk.1 chunk.2) =
      (store.bytes start size).chunked := by
  fun_induction chunks start size with
  | case1 => simp [Store.bytes, Bytes.chunked]
  | case2 start size some_left ih =>
    have nonempty : store.bytes start size ≠ [] := by
      intro empty
      have := congrArg List.length empty
      simp [some_left] at this
    rw [Bytes.chunked, if_neg nonempty, List.map_cons, ih, store.drop_bytes]
    rcases Nat.le_total chunkSize size with large | small
    · rw [store.take_bytes large, Nat.min_eq_left large]
    · rw [List.take_of_length_le (by simp [small]), Nat.min_eq_right small]

/-- A chunk lies inside its range, so it is held if the range is. -/
theorem chunk_holds {store : Store} {start size : Nat} (held : store.Holds start size) :
    ∀ chunk ∈ chunks start size, store.Holds chunk.1 chunk.2 := by
  fun_induction chunks start size with
  | case1 => intro chunk mem; cases mem
  | case2 start size some_left ih =>
    intro chunk mem
    rcases List.mem_cons.1 mem with rfl | later
    · exact held.mono (Nat.le_refl _) (by simp only; omega)
    -- After a chunk that is short there is no other one.
    · rcases Nat.lt_or_ge size chunkSize with small | large
      · rw [Nat.sub_eq_zero_of_le (Nat.le_of_lt small), chunks] at later
        cases later
      · exact ih (held.mono (by omega) (by omega)) chunk later

/-- The chunks reach to the end of their range, so the range is held if they are. -/
theorem holds_of_chunks {store : Store} {start size : Nat}
    (held : ∀ chunk ∈ chunks start size, store.Holds chunk.1 chunk.2) :
    store.Holds start size := by
  fun_induction chunks start size with
  | case1 => exact Or.inl rfl
  | case2 start size some_left ih =>
    have first := held _ (List.mem_cons_self ..)
    have rest := ih fun chunk mem => held chunk (List.mem_cons_of_mem _ mem)
    rcases first with empty | first
    · simp only [chunkSize] at empty
      omega
    · rcases rest with done | rest
      · exact Or.inr (by simp only at first; omega)
      · exact Or.inr (by omega)

/-- How one chunk of a range is written. -/
def writeChunk (store : Store) (chunk : Nat × Nat) : Emit Unit :=
  if store.contiguous then Sink.write (store.bytes chunk.1 chunk.2)
  else do Sink.write (← ofExcept (store.readExact chunk.1 chunk.2))

theorem writeChunk_of_holds {store : Store} {chunk : Nat × Nat}
    (held : store.Holds chunk.1 chunk.2) :
    writeChunk store chunk = Sink.write (store.bytes chunk.1 chunk.2) := by
  unfold writeChunk
  split
  · rfl
  · rw [Store.readExact_eq_ok_iff.2 ⟨held, rfl⟩]
    rfl

theorem forM_writeChunk {store : Store} {chunks : List (Nat × Nat)}
    (held : ∀ chunk ∈ chunks, store.Holds chunk.1 chunk.2) :
    chunks.forM (writeChunk store) =
      (chunks.map fun chunk => store.bytes chunk.1 chunk.2).forM Sink.write := by
  induction chunks with
  | nil => rfl
  | cons chunk rest ih =>
    show (writeChunk store chunk >>= fun _ => rest.forM (writeChunk store)) = _
    rw [writeChunk_of_holds (held chunk (List.mem_cons_self ..)),
      ih fun next mem => held next (List.mem_cons_of_mem _ mem)]
    rfl

/-- A range is checked, then it is written chunk by chunk. -/
theorem feed_eq (view : View) (offset size : Nat) :
    view.feed offset size = (do
      ofExcept (view.checkRange offset size)
      if view.store.contiguous && size ≠ 0 && view.store.held < view.offset + offset + size then
        throw (.storage (.endedEarly (view.offset + offset)))
      else (chunks (view.offset + offset) size).forM (writeChunk view.store)) := by
  unfold feed
  congr 1

/-- A store in memory that holds a range does not stop before it. -/
theorem not_misses_of_holds {view : View} {offset size : Nat} (held : view.Holds offset size) :
    ¬ (view.store.contiguous && size ≠ 0 &&
      view.store.held < view.offset + offset + size) = true := by
  rcases held with rfl | held
  · simp
  · simp [Nat.not_lt.2 held]

/-- Feeding a range that is held does not depend on the store. -/
theorem feed_of_holds {view : View} {offset size : Nat} (inside : offset + size ≤ view.size)
    (held : view.Holds offset size) :
    view.feed offset size = Sink.stream (view.bytes offset size) := by
  rw [feed_eq, checkRange_eq_ok_iff.2 inside, if_neg (not_misses_of_holds held), Sink.stream, bytes,
    ← map_chunks, forM_writeChunk (chunk_holds held)]
  rfl

/-- A range that was fed lies inside the view, and the store holds it. -/
theorem holds_of_feed {view : View} {offset size : Nat} {sink sink' : Sink} {u : Unit}
    (run : view.feed offset size sink = .ok u sink') :
    offset + size ≤ view.size ∧ view.Holds offset size := by
  rw [feed_eq] at run
  obtain ⟨_, inside, run⟩ := run_ofExcept_eq_ok_iff.1 run
  refine ⟨checkRange_eq_ok_iff.1 inside, ?_⟩
  split at run
  · exact absurd run run_throw_ne_ok
  · next long =>
    -- A contiguous store knows beforehand what it holds; any other one shows it chunk by chunk.
    by_cases memory : view.store.contiguous = true
    · by_cases empty : size = 0
      · exact Or.inl empty
      · simp only [memory, Bool.true_and, Bool.and_eq_true, decide_eq_true_eq] at long
        exact Or.inr (by omega)
    · apply holds_of_chunks
      intro chunk mem
      obtain ⟨before, after, wrote⟩ := Sink.run_forM_eq_ok run chunk mem
      rw [writeChunk, if_neg memory] at wrote
      obtain ⟨_, read, _⟩ := run_ofExcept_eq_ok_iff.1 wrote
      exact (Store.readExact_eq_ok_iff.1 read).1

theorem emits_feed (view : View) (offset size : Nat) :
    Sink.Emits (view.feed offset size) () (view.bytes offset size) := by
  intro sink sink' _ run
  obtain ⟨inside, held⟩ := holds_of_feed run
  rw [feed_of_holds inside held] at run
  exact Sink.emits_stream _ run

end View
end ApkArchive

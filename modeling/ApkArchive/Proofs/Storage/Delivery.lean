import ApkArchive.Proofs.Storage.Stream

/-!
# Writers that go through

What a successful writer has appended is in `Emits`; here it is shown that a writer succeeds. A sink
that is open refuses nothing, and `Delivers` says that a writer goes through on every open sink, and
what it returns and appends.
-/

namespace ApkArchive

namespace Sink

/-- The sink refuses no write. -/
def Open (sink : Sink) : Prop :=
  ∀ contents writes chunk, sink.refusal contents writes chunk = none

/-- On an open sink, `action` returns `a` and appends `written`, and the sink stays open. -/
def Delivers (action : Emit α) (a : α) (written : Bytes) : Prop :=
  ∀ ⦃sink : Sink⦄, sink.Open → ∃ sink', action sink = .ok a sink' ∧ sink'.Open ∧
    sink'.bytes = sink.bytes ++ written

theorem delivers_pure (a : α) : Delivers (pure a) a [] :=
  fun sink isOpen => ⟨sink, rfl, isOpen, (List.append_nil _).symm⟩

theorem Delivers.bind {action : Emit α} {next : α → Emit β} {a : α} {b : β} {first second : Bytes}
    (h : Delivers action a first) (rest : Delivers (next a) b second) :
    Delivers (action >>= next) b (first ++ second) := by
  intro sink isOpen
  obtain ⟨mid, run₁, isOpen₁, wrote₁⟩ := h isOpen
  obtain ⟨sink', run₂, isOpen₂, wrote₂⟩ := rest isOpen₁
  refine ⟨sink', run_bind_eq_ok_iff.2 ⟨a, mid, run₁, run₂⟩, isOpen₂, ?_⟩
  rw [wrote₂, wrote₁, List.append_assoc]

theorem delivers_write (chunk : Bytes) : Delivers (write chunk) () chunk := by
  rintro ⟨contents, writes, refusal⟩ isOpen
  unfold write
  split
  · next empty =>
    rw [List.isEmpty_iff.1 empty]
    exact ⟨_, rfl, isOpen, (List.append_nil _).symm⟩
  · have takes : refusal contents writes chunk = none := isOpen contents writes chunk
    dsimp only
    rw [takes]
    exact ⟨_, rfl, isOpen, by simp [bytes]⟩

theorem delivers_forM (chunks : List Bytes) : Delivers (chunks.forM write) () chunks.flatten := by
  induction chunks with
  | nil => exact delivers_pure ()
  | cons chunk rest ih =>
    rw [List.flatten_cons]
    exact (delivers_write chunk).bind ih

theorem delivers_stream (data : Bytes) : Delivers (stream data) () data := by
  have h := delivers_forM data.chunked
  rwa [data.flatten_chunked] at h

end Sink

/-- A range that can be read can be streamed. -/
theorem View.delivers_feed (view : View) (offset size : Nat) (inside : offset + size ≤ view.size)
    (held : view.Holds offset size) :
    Sink.Delivers (view.feed offset size) () (view.bytes offset size) := by
  rw [feed_of_holds inside held]
  exact Sink.delivers_stream _

end ApkArchive

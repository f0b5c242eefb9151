import ApkArchive.Proofs.Storage.Ensures
import ApkArchive.Proofs.Zip.Faults
import ApkArchive.Zip.LocalRecord.Emit

/-!
# Sinks grow

A writer does nothing to a sink but offer it writes. So however it ends, what the sink had taken
before is still there, and what the sink refuses is still decided in the same way. A writer that
fails has not written everything, and it does not fail because of the padding of a comment.
-/

namespace ApkArchive

namespace Sink

/-- The sink some writes later. -/
structure Later (earlier later : Sink) : Prop where
  bytes : earlier.bytes <+: later.bytes
  refusal : later.refusal = earlier.refusal

theorem Later.refl (sink : Sink) : Later sink sink := ⟨List.prefix_refl _, rfl⟩

theorem Later.trans {first second third : Sink} (h : Later first second) (h' : Later second third) :
    Later first third := ⟨h.bytes.trans h'.bytes, h'.refusal.trans h.refusal⟩

/-- However the writer ends, the sink has grown: by at most `limit` bytes, and by fewer if the
writer fails. What it fails at is not the padding of a comment. -/
def Appends (action : Emit α) (limit : Nat) : Prop :=
  ∀ earlier, Ensures (fun sink => sink = earlier) action
    (fun _ later => Later earlier later ∧ later.position ≤ earlier.position + limit)
    fun error later => Later earlier later ∧ later.position < earlier.position + limit ∧
      error.isFromPadding = false

namespace Appends

variable {limit limit' : Nat}

theorem mono {action : Emit α} (h : Appends action limit) (le : limit ≤ limit') :
    Appends action limit' := by
  intro earlier
  refine (h earlier).weaken (fun _ same => same) ?_ ?_
  · rintro a later ⟨grown, most⟩
    exact ⟨grown, by omega⟩
  · rintro error later ⟨grown, short, other⟩
    exact ⟨grown, by omega, other⟩

theorem pure (a : α) : Appends (pure a) limit := by
  rintro earlier _ rfl
  exact ⟨.refl _, Nat.le_add_right ..⟩

theorem throw {error : Error} (other : error.isFromPadding = false) (positive : 0 < limit) :
    Appends (throw error : Emit α) limit := by
  rintro earlier _ rfl
  exact ⟨.refl _, Nat.lt_add_of_pos_right positive, other⟩

/-- What is written is added up. -/
theorem bind {action : Emit α} {next : α → Emit β} (first : Appends action limit)
    (rest : ∀ a, Appends (next a) limit') : Appends (action >>= next) (limit + limit') := by
  intro earlier
  refine Ensures.bind ((first earlier).weaken (fun _ same => same) (fun _ _ post => post) ?_) ?_
  · rintro error later ⟨grown, short, other⟩
    exact ⟨grown, by omega, other⟩
  · rintro a mid ⟨grown, most⟩
    have ended := rest a mid rfl
    split at ended
    · exact ⟨grown.trans ended.1, by omega⟩
    · exact ⟨grown.trans ended.1, by omega, ended.2.2⟩

/-- What is returned at the end makes no difference. -/
theorem bind_pure {action : Emit α} (first : Appends action limit) (b : β) :
    Appends (do let _ ← action; return b) limit := by
  have all : Appends _ (limit + 0) := first.bind fun _ => pure b
  exact all

theorem ofExcept_bind {result : Except Error α} {next : α → Emit β}
    (other : Excludes Error.isFromPadding result)
    (positive : ∀ error, result = .error error → 0 < limit)
    (rest : ∀ a, result = .ok a → Appends (next a) limit) :
    Appends (ofExcept result >>= next) limit := by
  cases result with
  | ok a => exact rest a rfl
  | error error => exact throw (other error rfl) (positive error rfl)

theorem ite {c : Prop} [Decidable c] {first second : Emit α} (h : c → Appends first limit)
    (h' : ¬ c → Appends second limit) : Appends (if c then first else second) limit :=
  fun earlier => Ensures.ite (fun holds => h holds earlier) fun fails => h' fails earlier

theorem guard {c : Prop} [Decidable c] {error : Error} {action : Emit α}
    (other : error.isFromPadding = false) (positive : 0 < limit) (h : Appends action limit) :
    Appends (if c then (do MonadExcept.throw error; action) else action) limit :=
  ite (fun _ => throw other positive) fun _ => h

/-- A write is taken or refused, and nothing is no write. -/
theorem write (chunk : Bytes) : Appends (write chunk) chunk.length := by
  rintro _ ⟨contents, writes, refusal⟩ rfl
  unfold Sink.write
  by_cases empty : chunk.isEmpty = true
  · rw [if_pos empty]
    exact ⟨.refl _, Nat.le_add_right ..⟩
  · rw [if_neg empty]
    have some_left : 0 < chunk.length :=
      List.length_pos_iff.2 fun none => empty (List.isEmpty_iff.2 none)
    dsimp only
    cases refusal contents writes chunk with
    | some fault => exact ⟨.refl _, Nat.lt_add_of_pos_right some_left, rfl⟩
    | none => exact ⟨⟨by simp [bytes], rfl⟩, by simp [bytes]⟩

theorem forM {write : κ → Emit Unit} {size : κ → Nat} {chunks : List κ}
    (each : ∀ chunk ∈ chunks, Appends (write chunk) (size chunk)) :
    Appends (chunks.forM write) ((chunks.map size).foldr (· + ·) 0) := by
  induction chunks with
  | nil => exact pure ()
  | cons chunk rest ih =>
    rw [List.map_cons, List.foldr_cons]
    exact (each chunk (List.mem_cons_self ..)).bind fun _ =>
      ih fun chunk mem => each chunk (List.mem_cons_of_mem _ mem)

end Appends
end Sink

namespace View

/-- No chunk of a range is empty. -/
theorem chunk_pos (start size : Nat) : ∀ chunk ∈ chunks start size, 0 < chunk.2 := by
  fun_induction chunks start size with
  | case1 => exact List.forall_mem_nil _
  | case2 start size some_left ih =>
    exact List.forall_mem_cons.2 ⟨Nat.lt_min.2 ⟨by decide, Nat.pos_of_ne_zero some_left⟩, ih⟩

/-- The chunks make up the range. -/
theorem sum_chunks (start size : Nat) : ((chunks start size).map (·.2)).foldr (· + ·) 0 = size := by
  fun_induction chunks start size with
  | case1 => rfl
  | case2 start size some_left ih =>
    rw [List.map_cons, List.foldr_cons, ih]
    omega

theorem appends_writeChunk (store : Store) {chunk : Nat × Nat} (positive : 0 < chunk.2) :
    Sink.Appends (writeChunk store chunk) chunk.2 := by
  have wrote : Sink.Appends (Sink.write (store.bytes chunk.1 chunk.2)) chunk.2 := by
    have appends := Sink.Appends.write (store.bytes chunk.1 chunk.2)
    rwa [store.length_bytes] at appends
  refine .ite (fun _ => wrote) fun _ =>
    .ofExcept_bind (store.excludes_readOnto _ _ _) (fun _ _ => positive) fun bytes read => ?_
  obtain ⟨-, rfl⟩ := Store.readExact_eq_ok_iff.1 read
  exact wrote

/-- A range that is not in the view is refused even if it is empty. -/
theorem appends_feed (view : View) {offset size limit : Nat} (most : size ≤ limit)
    (room : 0 < limit ∨ offset + size ≤ view.size) :
    Sink.Appends (view.feed offset size) limit := by
  have wrote : Sink.Appends ((chunks (view.offset + offset) size).forM (writeChunk view.store))
      size := by
    have each := chunk_pos (view.offset + offset) size
    have appends := Sink.Appends.forM fun chunk mem =>
      appends_writeChunk view.store (each chunk mem)
    rwa [sum_chunks] at appends
  rw [feed_eq]
  refine .ofExcept_bind (view.excludes_checkRange _ _) (fun error refused => ?_) fun _ _ =>
    .ite (fun misses => .throw rfl ?_) fun _ => wrote.mono most
  · refine room.resolve_right fun inside => ?_
    cases (checkRange_eq_ok_iff.2 inside).symm.trans refused
  · simp only [Bool.and_eq_true, decide_eq_true_eq] at misses
    exact Nat.lt_of_lt_of_le (Nat.pos_of_ne_zero misses.1.2) most

end View

namespace LocalRecord

open Sink

theorem appends_copy (record : LocalRecord) (entries : View) {limit : Nat}
    (most : record.size ≤ limit) (positive : 0 < limit) :
    Appends (record.copy entries) limit :=
  (entries.appends_feed most (.inl positive)).bind_pure record.size

/-- The front of a record stays as long as it was. -/
theorem length_patched (record : LocalRecord) {front : Bytes}
    (length : front.length = record.extraStart) (word : UInt16) (extra : Bytes) :
    (front.take LocalHeader.extraSizeOffset ++ Bytes.word16 word ++
      front.drop LocalHeader.fixedSize ++ extra).length = record.extraStart + extra.length := by
  have long : LocalHeader.fixedSize ≤ record.extraStart := Nat.le_add_right ..
  simp only [LocalHeader.fixedSize] at long
  simp only [List.length_append, List.length_take, List.length_drop, Bytes.length_word16, length,
    LocalHeader.extraSizeOffset, LocalHeader.fixedSize]
  omega

theorem appends_copyWithExtra (record : LocalRecord) (entries : View) (extra : Bytes) {limit : Nat}
    (most : record.extraStart + extra.length + (record.size - record.dataStart) ≤ limit)
    (room : record.extraStart + extra.length + (record.size - record.dataStart) < limit ∨
      record.start + record.dataStart + (record.size - record.dataStart) ≤ entries.size) :
    Appends (record.copyWithExtra entries extra) limit := by
  have positive : 0 < record.extraStart := Nat.add_pos_left (by decide) _
  refine .guard rfl (by omega) (.ofExcept_bind (entries.excludes_copy _ _) (by omega) ?_)
  intro front copied
  obtain ⟨-, -, rfl⟩ := View.copy_eq_ok_iff.1 copied
  have wrote := Appends.write
    ((entries.bytes record.start record.extraStart).take LocalHeader.extraSizeOffset ++
      Bytes.word16 (UInt16.ofNat extra.length) ++
      (entries.bytes record.start record.extraStart).drop LocalHeader.fixedSize ++ extra)
  rw [record.length_patched (entries.length_bytes _ _)] at wrote
  have left : record.size - record.dataStart ≤ limit - (record.extraStart + extra.length) := by
    omega
  have room : 0 < limit - (record.extraStart + extra.length) ∨
      record.start + record.dataStart + (record.size - record.dataStart) ≤ entries.size := by
    omega
  have all := wrote.bind fun _ =>
    (entries.appends_feed left room).bind_pure
      (record.extraStart + extra.length + (record.size - record.dataStart))
  exact all.mono (by omega)

theorem appends_emitNew (name : String) (modified : Timestamp) (compressed : Bytes)
    (crc32 size : UInt32) :
    Appends (emitNew name modified compressed crc32 size)
      (LocalHeader.fixedSize + (LossyUtf8.encode name).length + compressed.length) := by
  have positive : 0 < LocalHeader.fixedSize := by decide
  refine .guard rfl (by omega) (.guard rfl (by omega) ?_)
  rw [← LocalHeader.length_encode (.newDeflated modified crc32 (UInt32.ofNat compressed.length)
    size (UInt16.ofNat (LossyUtf8.encode name).length)), ← List.length_append]
  exact (Appends.write _).bind fun _ => (Appends.write _).bind_pure _

/-- What inflated data is found to be wrong with is found after it was written. -/
theorem appends_emitInflated (record : LocalRecord) (stream : Bytes) {read : Except Error Unit}
    (other : Excludes Error.isFromPadding read) :
    ∃ limit, Appends (record.emitInflated stream read) limit := by
  refine ⟨_ + 1, (Appends.write _).bind fun _ => ?_⟩
  split
  · exact .throw rfl Nat.one_pos
  · exact .throw rfl Nat.one_pos
  · exact .ofExcept_bind other (fun _ _ => Nat.one_pos) fun _ _ =>
      .ite (fun _ => .throw rfl Nat.one_pos) fun _ => .pure ()

theorem appends_emitData (record : LocalRecord) (entries : View) :
    ∃ limit, Appends (record.emitData entries) limit := by
  have fed : Appends (entries.feed (record.start + record.dataStart) record.dataSize)
      (record.dataSize + 1) := entries.appends_feed (Nat.le_succ _) (.inl (Nat.succ_pos _))
  unfold emitData
  dsimp only
  split
  · exact ⟨_, fed⟩
  · split
    · exact record.appends_emitInflated _ (.ok ())
    · next error stream failed =>
      exact record.appends_emitInflated _ (.error ((fed {}).error rfl failed).2.2)
  · exact ⟨1, .throw rfl Nat.one_pos⟩

end LocalRecord
end ApkArchive

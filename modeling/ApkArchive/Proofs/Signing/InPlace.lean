import ApkArchive.Proofs.Signing.Entries
import ApkArchive.Proofs.Signing.Unchanged

/-!
# Entries that land where they were

An entry is planned for the place where it lands, and where it lands depends on what was planned for
all entries before it. If no two local records share a byte and every entry is kept, this circle
opens from the front: up to the first entry that is aligned anew, everything lands where it was. So
it makes no difference whether the plans are looked at where the entries stood or where they land:

    every plan is unchanged where the entry lands ↔ every plan is unchanged where the entry stood
-/

namespace ApkArchive.Signing

variable {config : Config} {entries : View}

/-- An entry that stays as it is, is written as it stands in the input. -/
theorem Piece.Sound.written_of_unchanged {piece : Piece} (sound : piece.Sound config entries)
    (isKept : piece.isKept = true)
    (stays : config.alignment.plan piece.found piece.offset = .unchanged) :
    piece.written = entries.bytes piece.found.start piece.found.size := by
  obtain ⟨new, copied, written⟩ := sound.kept isKept
  obtain ⟨fits, planned⟩ := copied.planned
  have same : (config.alignment.plan piece.layout.found piece.offset).extraField
      piece.layout.found = piece.layout.extra := by
    have stays : config.alignment.plan piece.layout.found piece.offset = .unchanged := stays
    rw [stays]
    rfl
  rw [written, planned, piece.layout.withExtra_eq_self same fits]
  exact sound.has.symm

/-! ### Pieces of entries that do not overlap -/

/-- The local records of two pieces follow each other. -/
def Piece.Precedes (a b : Piece) : Prop := a.found.stop ≤ b.found.start

/-- Entries that are all kept, none of which begins before `covered` or before the end of another
one that stands before it. -/
structure Queued (config : Config) (entries : View) (covered : Nat) (pieces : List Piece) :
    Prop where
  sound : ∀ piece ∈ pieces, piece.Sound config entries
  kept : ∀ piece ∈ pieces, piece.isKept = true
  follow : pieces.Pairwise Piece.Precedes
  ahead : ∀ piece ∈ pieces, covered ≤ piece.found.start

namespace Queued

variable {covered : Nat} {piece : Piece} {rest : List Piece}

theorem head (h : Queued config entries covered (piece :: rest)) :
    piece.Sound config entries ∧ piece.isKept = true ∧ covered ≤ piece.found.start ∧
      max covered piece.found.stop = piece.found.stop := by
  have mem : piece ∈ piece :: rest := List.mem_cons_self ..
  have start := h.ahead piece mem
  exact ⟨h.sound piece mem, h.kept piece mem, start,
    Nat.max_eq_right (Nat.le_trans start (Nat.le_add_right ..))⟩

theorem tail (h : Queued config entries covered (piece :: rest)) :
    Queued config entries (max covered piece.found.stop) rest where
  sound other mem := h.sound other (List.mem_cons_of_mem _ mem)
  kept other mem := h.kept other (List.mem_cons_of_mem _ mem)
  follow := (List.pairwise_cons.1 h.follow).2
  ahead other mem := by
    rw [h.head.2.2.2]
    exact (List.pairwise_cons.1 h.follow).1 other mem

end Queued

namespace Laid

variable {covered offset covered' : Nat} {pieces : List Piece}

theorem covered_le (laid : Laid entries covered offset pieces covered')
    (sound : ∀ piece ∈ pieces, piece.Sound config entries) (inside : covered ≤ entries.size) :
    covered' ≤ entries.size := by
  induction laid with
  | nil => exact inside
  | cons gap place laid ih =>
    refine ih (fun other mem => sound other (List.mem_cons_of_mem _ mem)) ?_
    exact Nat.max_le.2 ⟨inside, (sound _ (List.mem_cons_self ..)).inside⟩

/-- The induction is on the pieces; as long as they are unchanged, input and output are covered
equally far. -/
theorem unchanged_iff (laid : Laid entries covered offset pieces covered')
    (queued : Queued config entries covered pieces) (same : offset = covered) :
    (∀ piece ∈ pieces, config.alignment.plan piece.found piece.offset = .unchanged) ↔
      ∀ piece ∈ pieces, config.alignment.plan piece.found piece.found.start = .unchanged := by
  induction laid with
  | nil => exact ⟨fun _ _ => nofun, fun _ _ => nofun⟩
  | @cons covered offset covered' piece rest gap place laid ih =>
    obtain ⟨sound, isKept, start, reach⟩ := queued.head
    have lands : piece.offset = piece.found.start := by
      rw [place, gap, View.length_bytes]
      omega
    rw [List.forall_mem_cons, List.forall_mem_cons, lands]
    refine and_congr_right fun stays => ih queued.tail ?_
    rw [← lands] at stays
    rw [lands, sound.written_of_unchanged isKept stays, View.length_bytes, reach]
    rfl

/-- Pieces that are all unchanged land where they stood, and are the input once more. -/
theorem verbatim (laid : Laid entries covered offset pieces covered')
    (queued : Queued config entries covered pieces) (same : offset = covered)
    (unchanged : ∀ piece ∈ pieces, config.alignment.plan piece.found piece.offset = .unchanged) :
    covered ≤ covered' ∧ (∀ piece ∈ pieces, piece.offset = piece.found.start) ∧
      pieces.flatMap Piece.bytes = entries.bytes covered (covered' - covered) := by
  induction laid with
  | @nil covered offset =>
    refine ⟨Nat.le_refl _, fun _ => nofun, ?_⟩
    rw [Nat.sub_self]
    rfl
  | @cons covered offset covered' piece rest gap place laid ih =>
    obtain ⟨sound, isKept, start, reach⟩ := queued.head
    obtain ⟨stays, unchanged⟩ := List.forall_mem_cons.1 unchanged
    have lands : piece.offset = piece.found.start := by
      rw [place, gap, View.length_bytes]
      omega
    have written := sound.written_of_unchanged isKept stays
    have length : piece.offset + piece.written.length = max covered piece.found.stop := by
      rw [lands, written, View.length_bytes, reach]
      rfl
    obtain ⟨further, places, bytes⟩ := ih queued.tail length unchanged
    rw [reach] at further bytes
    have stop : piece.found.start ≤ piece.found.stop := Nat.le_add_right ..
    refine ⟨by omega, List.forall_mem_cons.2 ⟨lands, places⟩, ?_⟩
    -- Gap, local record and all that comes after it are three ranges that touch each other.
    have size : piece.found.size = piece.found.stop - piece.found.start :=
      (Nat.add_sub_cancel_left ..).symm
    rw [List.flatMap_cons, Piece.bytes, gap, written, bytes, size, entries.bytes_join start stop,
      entries.bytes_join (Nat.le_trans start stop) further]

end Laid

/-! ### Outcomes -/

namespace Outcome

variable {input : View} {deflate : Bytes → Bytes} (outcome : Outcome config input deflate)

/-- Every entry of the input was kept. -/
def KeepsAll : Prop := ∀ piece ∈ outcome.pieces, piece.isKept = true

theorem queued (keeps : outcome.KeepsAll)
    (apart : outcome.records.Pairwise (Apart outcome.entries)) :
    Queued config outcome.entries 0 outcome.pieces where
  sound := outcome.sound
  kept := keeps
  follow := by
    have before := pairwise_before apart
    rw [← outcome.order, List.pairwise_map] at before
    refine before.imp_of_mem ?_
    intro a b first second follow
    exact follow _ _ (outcome.sound a first).located (outcome.sound b second).located
  ahead _ _ := Nat.zero_le _

theorem record_mem {piece : Piece} (mem : piece ∈ outcome.pieces) :
    piece.record ∈ outcome.records := by
  rw [← outcome.listing]
  exact List.mem_map_of_mem (outcome.perm.mem_iff.2 mem)

variable {outcome}

theorem isRealigned_fate {piece : Piece} (isKept : piece.isKept = true) :
    (piece.fate config).isRealigned = false ↔
      config.alignment.plan piece.found piece.offset = .unchanged := by
  have keeps : piece.decision.disposition = .keep := of_decide_eq_true isKept
  rw [Piece.fate, keeps]
  show decide (_ ≠ _) = false ↔ _
  rw [decide_eq_false_iff_not, not_not]

/-- No entry is aligned anew if each one stays as it is where it stood, and only then. -/
theorem realigned_eq_zero_iff (keeps : outcome.KeepsAll)
    (apart : outcome.records.Pairwise (Apart outcome.entries)) :
    outcome.summary.realigned = 0 ↔ ∀ record ∈ outcome.records, ∀ found,
      LocalRecord.locate outcome.entries record outcome.entries.size = .ok found →
        config.alignment.plan found found.start = .unchanged := by
  have lands := outcome.laid.unchanged_iff (outcome.queued keeps apart) rfl
  have counted : outcome.summary.realigned = 0 ↔ ∀ piece ∈ outcome.pieces,
      config.alignment.plan piece.found piece.offset = .unchanged := by
    show outcome.fates.countP Fate.isRealigned = 0 ↔ _
    rw [fates, List.countP_map, List.countP_eq_zero]
    refine forall₂_congr fun piece mem => ?_
    rw [Function.comp_apply, Bool.not_eq_true, isRealigned_fate (keeps piece mem)]
  rw [counted, lands]
  constructor
  · intro stays record mem found located
    obtain ⟨piece, mem', rfl⟩ := outcome.exists_piece mem
    cases located.symm.trans (outcome.sound piece mem').located
    exact stays piece mem'
  · intro stays piece mem
    exact stays piece.record (outcome.record_mem mem) piece.found (outcome.sound piece mem).located

/-- Entries in order are copied as they are, and so is what lies between them. -/
theorem body_of_inOrder (keeps : outcome.KeepsAll) (nothing : outcome.additions = [])
    (inOrder : InOrder config.alignment outcome.entries outcome.records) :
    outcome.body = outcome.entries.bytes 0 outcome.entries.size ∧
      outcome.directory = outcome.records := by
  have queued := outcome.queued keeps inOrder.apart
  have stays : ∀ piece ∈ outcome.pieces,
      config.alignment.plan piece.found piece.found.start = .unchanged := by
    intro piece mem
    obtain ⟨found, located, stays⟩ := inOrder.located _ (outcome.record_mem mem)
    cases located.symm.trans (outcome.sound piece mem).located
    exact stays
  have unchanged := (outcome.laid.unchanged_iff queued rfl).2 stays
  obtain ⟨-, places, bytes⟩ := outcome.laid.verbatim queued rfl unchanged
  have inside := outcome.laid.covered_le outcome.sound (Nat.zero_le _)
  constructor
  · have whole := outcome.entries.bytes_join (Nat.zero_le outcome.covered) inside
    rw [Nat.sub_zero, Nat.sub_zero] at whole
    rw [body, bodyBytes, tail, nothing, bytes, Nat.sub_zero, whole]
    exact List.append_nil _
  · have all : outcome.listed.filter Piece.isKept = outcome.listed := by
      rw [List.filter_eq_self]
      intro piece listed
      exact keeps piece (outcome.perm.mem_iff.1 listed)
    rw [directory, nothing, keptRecords, all, List.map_nil, List.append_nil, ← outcome.listing]
    refine List.map_congr_left fun piece listed => ?_
    -- A record that is moved to where it is, is the same record.
    have place := places piece (outcome.perm.mem_iff.1 listed)
    have start : piece.found.start = piece.record.localOffset.toNat := rfl
    rw [Piece.moved, place, start, UInt32.ofNat_toNat]
    rfl

end Outcome

end ApkArchive.Signing

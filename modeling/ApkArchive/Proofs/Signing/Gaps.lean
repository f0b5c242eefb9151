import ApkArchive.Proofs.Signing.Outcome

/-!
# What is not an entry is kept

Before the first entry, between two entries and after the last one there may be bytes that belong
to no entry. All of them are in the output, each one once and in order, whatever becomes of the
entries. Local records may overlap or lie inside each other: a byte counts as free only if it lies
in none of them.

The sweep keeps one number, how far the entries reach so far. As they come in file order, what lies
before that number is settled: it has been copied, or it lies in an entry.
-/

namespace ApkArchive

/-- The byte at an offset of the view. -/
def View.byte (view : View) (offset : Nat) : UInt8 := view.store.byte (view.offset + offset)

theorem View.bytes_eq_map (view : View) (offset n : Nat) :
    view.bytes offset n = (List.range' offset n).map view.byte := by
  rw [bytes, Store.bytes, ← List.map_add_range', List.map_map]
  rfl

namespace Signing

namespace Piece

/-- Whether a place of the input lies in the local record of the entry. -/
def covers (piece : Piece) (i : Nat) : Bool := piece.found.start ≤ i && i < piece.found.stop

end Piece

/-- The bytes of the input that lie in no local record of an entry. -/
def freeBytes (entries : View) (pieces : List Piece) : Bytes :=
  ((List.range entries.size).filter fun i => pieces.all fun piece => !piece.covers i).map
    entries.byte

/-! ### The gaps are the free bytes -/

theorem range'_split {first middle last : Nat} (le : first ≤ middle) (le' : middle ≤ last) :
    List.range' first (last - first) =
      List.range' first (middle - first) ++ List.range' middle (last - middle) := by
  have joined := List.range'_append_1 (s := first) (m := middle - first) (n := last - middle)
  rw [Nat.add_sub_of_le le] at joined
  rw [joined]
  congr 1
  omega

/-- The places from `covered` on that lie neither in an interval that begins after it nor in any of
some others that begin still later. -/
theorem filter_range' {covered start stop size : Nat} {others : Nat → Bool} (ordered : start ≤ stop)
    (inside : stop ≤ size) (reached : covered ≤ size) (later : ∀ i, i < start → others i = true) :
    (List.range' covered (size - covered)).filter
        (fun i => !(start ≤ i && i < stop) && others i) =
      List.range' covered (start - covered) ++
        (List.range' (max covered stop) (size - max covered stop)).filter others := by
  have before : start - covered = max covered start - covered := by omega
  -- Three ranges: before the interval, the rest of the interval, and after it.
  rw [before, range'_split (Nat.le_max_left covered start) (by omega : max covered start ≤ size),
    range'_split (by omega : max covered start ≤ max covered stop)
      (by omega : max covered stop ≤ size), List.filter_append, List.filter_append]
  have free : (List.range' covered (max covered start - covered)).filter
      (fun i => !(start ≤ i && i < stop) && others i) =
        List.range' covered (max covered start - covered) := by
    rw [List.filter_eq_self]
    intro i mem
    have place := List.mem_range'_1.1 mem
    have less : i < start := by omega
    rw [later i less]
    simp [Nat.not_le.2 less]
  have taken : (List.range' (max covered start) (max covered stop - max covered start)).filter
      (fun i => !(start ≤ i && i < stop) && others i) = [] := by
    rw [List.filter_eq_nil_iff]
    intro i mem
    have place := List.mem_range'_1.1 mem
    have start_le : start ≤ i := by omega
    have lt_stop : i < stop := by omega
    simp [start_le, lt_stop]
  have rest : (List.range' (max covered stop) (size - max covered stop)).filter
      (fun i => !(start ≤ i && i < stop) && others i) =
        (List.range' (max covered stop) (size - max covered stop)).filter others := by
    apply List.filter_congr
    intro i mem
    have place := List.mem_range'_1.1 mem
    have past : ¬ i < stop := by omega
    simp [past]
  rw [free, taken, rest, List.nil_append]

/-- The induction follows the pieces; what lies before `covered` is settled already. -/
theorem Laid.gaps {entries : View} {covered offset covered' : Nat} {pieces : List Piece}
    (laid : Laid entries covered offset pieces covered') (reached : covered ≤ entries.size)
    (inside : ∀ piece ∈ pieces, piece.found.stop ≤ entries.size)
    (sorted : pieces.Pairwise fun a b => a.found.start ≤ b.found.start) :
    pieces.flatMap Piece.gap ++ entries.bytes covered' (entries.size - covered') =
      ((List.range' covered (entries.size - covered)).filter
        fun i => pieces.all fun piece => !piece.covers i).map entries.byte := by
  induction laid with
  | @nil covered offset =>
    rw [List.flatMap_nil, List.nil_append, View.bytes_eq_map]
    exact congrArg _ (List.filter_eq_self.2 fun _ _ => rfl).symm
  | @cons covered offset covered' piece rest gap place laid ih =>
    obtain ⟨least, sorted⟩ := List.pairwise_cons.1 sorted
    have stop_le := inside piece (List.mem_cons_self ..)
    have ih := ih (by omega) (fun other mem => inside other (List.mem_cons_of_mem _ mem)) sorted
    -- In file order, nothing before this entry lies in one that comes later.
    have later : ∀ i, i < piece.found.start → (rest.all fun other => !other.covers i) = true := by
      intro i less
      rw [List.all_eq_true]
      intro other mem
      have := least other mem
      have not_le : ¬ other.found.start ≤ i := by omega
      simp [Piece.covers, not_le]
    have split := filter_range'
      (Nat.le_add_right piece.found.start piece.found.size) stop_le reached later
    rw [List.flatMap_cons, List.append_assoc, ih, gap, View.bytes_eq_map, ← List.map_append]
    exact congrArg (List.map entries.byte) split.symm

/-- What is copied between the entries and after them is what lies in no entry. -/
theorem Outcome.gaps {config : Config} {input : View} {deflate : Bytes → Bytes}
    (outcome : Outcome config input deflate) :
    outcome.pieces.flatMap Piece.gap ++ outcome.tail =
      freeBytes outcome.entries outcome.pieces := by
  rw [freeBytes, List.range_eq_range']
  apply outcome.laid.gaps (Nat.zero_le _)
  · intro piece mem
    exact (outcome.sound piece mem).inside
  · exact outcome.ascending

/-! ### The body of the output -/

/-- The output of a run begins with the pieces of the input entries, and no byte that lies in no
entry is lost, doubled or moved past another one. -/
structure Rewritten (config : Config) (entries : View) (records : List DirectoryRecord)
    (final : Session σ) (pieces : List Piece) (tail : Bytes) (additions : List Addition)
    (directory : List DirectoryRecord) : Prop where
  output : ∃ shown answer endRecord, final.rounds.getLast? = some (shown, some answer) ∧
    shown.entries.data.toList = bodyBytes pieces tail additions ∧
    final.output.bytes = bodyBytes pieces tail additions ++
      ((BlockRequest.orEmpty answer).bytes ++
        (Directory.encode directory ++ EndRecord.encode endRecord))
  everyEntry : (pieces.map Piece.record).Perm records
  ascending : pieces.Pairwise fun a b => a.record.localOffset.toNat ≤ b.record.localOffset.toNat
  located : ∀ piece ∈ pieces,
    LocalRecord.locate entries piece.record entries.size = .ok piece.found
  decided : final.decisions =
    pieces.map fun piece => (piece.record.name, piece.decision.disposition)
  gaps : pieces.flatMap Piece.gap ++ tail = freeBytes entries pieces
  dropped : ∀ piece ∈ pieces, piece.isKept = false → piece.written = []
  kept : ∀ piece ∈ pieces, piece.isKept = true →
    entries.Has piece.found.start piece.layout.bytes ∧
      ∃ fits, piece.written = (piece.layout.withExtra
        ((config.alignment.plan piece.found piece.offset).extraField piece.found) fits).bytes
  keptPlace : ∀ front piece back, pieces = front ++ piece :: back → piece.isKept = true →
    piece.moved ∈ directory ∧ piece.moved.localOffset.toNat = piece.offset ∧
      piece.offset = (front.flatMap Piece.bytes ++ piece.gap).length
  supplied : final.supplies = additions.map Addition.entry
  addedPlace : ∀ front addition back, additions = front ++ addition :: back →
    addition.record ∈ directory ∧ addition.record.name = addition.entry.name ∧
      addition.record.localOffset.toNat = (bodyBytes pieces tail front).length

theorem gaps_are_preserved {engine : Engine σ} {config : Config} {input : View}
    {deflate : Bytes → Bytes} {start : σ} {sink : Sink} {summary : Summary} {final : Session σ}
    (run : (sign engine config input deflate).run { engine := start, output := sink } =
      .ok summary final) :
    ∃ sections records entries, input.IsArchive sections records entries ∧
      ∃ pieces tail additions directory,
        Rewritten config entries records final pieces tail additions directory := by
  obtain ⟨outcome, described⟩ := sign_eq_ok run
  obtain ⟨shown, body, rounds⟩ := described.rounds
  refine ⟨outcome.sections, outcome.records, outcome.entries, outcome.archive, outcome.pieces,
    outcome.tail, outcome.additions, outcome.directory, {
      output := ⟨(outcome.last.asked shown (Directory.encode outcome.directory)).1,
        outcome.last.2, outcome.endRecord, ?_, body, described.output⟩
      everyEntry := ?_
      ascending := outcome.ascending
      located := fun piece mem => (outcome.sound piece mem).located
      decided := described.decisions
      gaps := outcome.gaps
      dropped := fun piece mem => (outcome.sound piece mem).dropped
      kept := ?_
      keptPlace := ?_
      supplied := described.supplies
      addedPlace := ?_ }⟩
  · exact described.getLast?_rounds rounds
  · rw [← outcome.listing]
    exact outcome.perm.symm.map _
  · intro piece mem isKept
    have sound := outcome.sound piece mem
    obtain ⟨new, copied, written⟩ := sound.kept isKept
    obtain ⟨fits, rfl⟩ := copied.planned
    exact ⟨sound.has, fits, written⟩
  · intro front piece back split isKept
    have mem : piece ∈ outcome.pieces := by rw [split]; simp
    obtain ⟨new, copied, -⟩ := (outcome.sound piece mem).kept isKept
    have place := outcome.laid.place split
    rw [Nat.zero_add] at place
    refine ⟨outcome.moved_mem mem isKept, UInt32.toNat_ofNat_of_lt' copied.offsetFits, place⟩
  · intro front addition back split
    have mem : addition ∈ outcome.additions := by rw [split]; simp
    obtain ⟨_, sound⟩ := outcome.appended.exists_sound mem
    have place := outcome.appended.place split
    refine ⟨List.mem_append_right _ (List.mem_map_of_mem mem), sound.record_name, ?_⟩
    rw [place]
    exact List.length_append.symm

theorem sample_gaps_are_preserved :
    ∃ summary final, Sample.run Sample.script = .ok summary final ∧
      ∃ sections records entries, Sample.input.IsArchive sections records entries ∧
        ∃ pieces tail additions directory,
          Rewritten {} entries records final pieces tail additions directory := by
  obtain ⟨summary, final, result⟩ := Sample.exists_run
  exact ⟨summary, final, result, gaps_are_preserved result⟩

end Signing
end ApkArchive

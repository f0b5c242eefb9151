import ApkArchive.Proofs.Signing.Frames
import ApkArchive.Proofs.Signing.Outcome

/-!
# Names that are taken

No name occurs twice in an output. The engine supplies its new entries all at once, and a run comes
to a name that is taken only after it has written all entries before it; there it fails, before it
writes anything of the entry. So whatever else may go wrong before,

    what was written since the entries were supplied <+: the entries before it

and if the entries before it were written, then it is the name that the run fails for.
-/

namespace ApkArchive

/-! ### Writers that fail -/

open LocalRecord (emitNew)

/-- The local record of a new entry. -/
def LocalRecord.newBytes (name : String) (stamp : Timestamp) (compressed : Bytes)
    (crc32 size : UInt32) : Bytes :=
  (LocalHeader.newDeflated stamp crc32 (UInt32.ofNat compressed.length) size
    (UInt16.ofNat (LossyUtf8.encode name).length)).encode ++ LossyUtf8.encode name ++ compressed

theorem LocalRecord.length_newBytes (name : String) (stamp : Timestamp) (compressed : Bytes)
    (crc32 size : UInt32) :
    (newBytes name stamp compressed crc32 size).length =
      LocalHeader.fixedSize + (LossyUtf8.encode name).length + compressed.length := by
  simp only [newBytes, List.length_append, LocalHeader.length_encode]

/-- A writer that fails has not written everything. -/
theorem LocalRecord.ensures_emitNew (front : Bytes) (name : String) (stamp : Timestamp)
    (compressed : Bytes) (crc32 size : UInt32) :
    Ensures (fun sink => sink.bytes = front) (emitNew name stamp compressed crc32 size)
      (fun _ sink => (LossyUtf8.encode name).length < 65536 ∧
        sink.bytes = front ++ newBytes name stamp compressed crc32 size)
      fun _ sink => ∃ part, part <+: newBytes name stamp compressed crc32 size ∧
        part.length < (newBytes name stamp compressed crc32 size).length ∧
          sink.bytes = front ++ part := by
  have length := length_newBytes name stamp compressed crc32 size
  have positive : 0 < (newBytes name stamp compressed crc32 size).length := by
    rw [length, LocalHeader.fixedSize]
    omega
  have nothing (sink : Sink) (same : sink.bytes = front) :
      ∃ part, part <+: newBytes name stamp compressed crc32 size ∧
        part.length < (newBytes name stamp compressed crc32 size).length ∧
          sink.bytes = front ++ part :=
    ⟨[], List.nil_prefix, positive, by rw [same, List.append_nil]⟩
  unfold emitNew
  dsimp only
  refine .guard (fun sink _ same => nothing sink same) fun nameFits => ?_
  refine .guard (fun sink _ same => nothing sink same) fun _ => ?_
  refine Ensures.bind ((Sink.ensures_write front _).weaken (fun _ same => same)
    (fun _ _ wrote => wrote) fun _ sink refused => nothing sink refused.2.2) fun _ => ?_
  refine Ensures.bind (Q := fun _ sink =>
    sink.bytes = front ++ newBytes name stamp compressed crc32 size) ?_ fun _ => ?_
  · refine (Sink.ensures_write _ compressed).weaken (fun _ same => same) ?_ ?_
    · intro _ sink wrote
      rw [wrote, newBytes, List.append_assoc]
    · rintro _ sink ⟨-, some_left, same⟩
      refine ⟨_, List.prefix_append .., ?_, same⟩
      have := List.length_pos_iff.2 some_left
      simp only [newBytes, List.length_append]
      omega
  · exact (Ensures.pure _).post fun _ _ post => ⟨Nat.lt_of_not_le nameFits, post.2⟩

namespace Signing

open Run

/-- The local record of a new entry as it is written. -/
def NewEntry.localBytes (deflate : Bytes → Bytes) (stamp : Timestamp) (entry : NewEntry) : Bytes :=
  LocalRecord.newBytes entry.name stamp (deflate entry.data) (Crc32.checksum entry.data)
    (UInt32.ofNat entry.data.length)

/-- What a run says of a name that comes again. -/
def nameTaken (name : String) : Error :=
  .engine ⟨s!"Signing engine added entry {name} which is already in the output", []⟩

variable {engine : Engine σ} {config : Config} {deflate : Bytes → Bytes} {stamp : Timestamp}

/-! ### One new entry -/

/-- The calls by which it is known what is in the output: the answers for the entries of the input,
and the new entries. -/
def Call.isEntry (call : Call) : Bool := call.decision?.isSome || call.supply?.isSome

/-- How a run ends that fails at a new entry, with `front` before it: the entry was not written to
its end, and not begun if its name is taken. -/
structure FailsAt (front whole : Bytes) (name : String) (taken : Prop) (error : Error)
    (output : Bytes) : Prop where
  stopped : ∃ part, part <+: whole ∧ part.length < whole.length ∧ output = front ++ part
  refused : taken → output = front ∧ error = nameTaken name

/-- The run has failed at a new entry; `calls` are all calls for entries. -/
def FailsWith (deflate : Bytes → Bytes) (stamp : Timestamp) (known : Additions) (entry : NewEntry)
    (front : Bytes) (calls : List (Call × Nat)) (error : Error) (s : Session σ) : Prop :=
  FailsAt front (entry.localBytes deflate stamp) entry.name
    (known.names.contains entry.name = true) error s.output.bytes ∧ s.only Call.isEntry = calls

theorem ensures_addEntry (known : Additions) (entry : NewEntry) (front : Bytes)
    (calls : List (Call × Nat)) :
    Ensures (fun s => s.output.bytes = front ∧ s.only Call.isEntry = calls)
      (addEntry engine deflate stamp known entry)
      (fun known' s => (s.output.bytes = front ++ entry.localBytes deflate stamp ∧
          s.only Call.isEntry = calls) ∧
        known.names.contains entry.name = false ∧
          known'.names = known.names.insert entry.name)
      (FailsWith deflate stamp known entry front calls) := by
  have positive : 0 < (entry.localBytes deflate stamp).length := by
    rw [NewEntry.localBytes, LocalRecord.length_newBytes, LocalHeader.fixedSize]
    omega
  have nothing (error : Error) (s : Session σ)
      (refused : known.names.contains entry.name = true → error = nameTaken entry.name)
      (pre : s.output.bytes = front ∧ s.only Call.isEntry = calls) :
      FailsWith deflate stamp known entry front calls error s := by
    refine ⟨⟨⟨[], List.nil_prefix, positive, ?_⟩, ?_⟩, pre.2⟩
    · rw [pre.1, List.append_nil]
    · intro taken
      exact ⟨pre.1, refused taken⟩
  unfold addEntry
  dsimp only
  refine .guard (fun s _ pre => nothing _ s (fun _ => rfl) pre) fun fresh => ?_
  have other (error : Error) (s : Session σ) := nothing error s fun taken => absurd taken fresh
  -- Until the entry is written, only the engine may be called, and not for an answer that counts.
  have silent {α : Type} {x : Run σ α} (moves : Moves (Silence Call.isEntry) x) :
      Ensures (fun s => s.output.bytes = front ∧ s.only Call.isEntry = calls) x
        (fun _ s => s.output.bytes = front ∧ s.only Call.isEntry = calls)
        (FailsWith deflate stamp known entry front calls) := by
    refine (moves.ensures ?_).weaken (fun _ pre => pre) (fun _ _ post => post) other
    intro s t silence pre
    exact ⟨silence.1.trans pre.1, silence.2.trans pre.2⟩
  refine (silent (.ask fun _ => allows_silence rfl)).bind fun sink => ?_
  refine (silent (moves_show? (fun _ _ _ => allows_silence rfl) _ _ _ _)).bind fun _ => ?_
  refine .ofExcept_bind (fun error s _ => other error s) fun offset _ => ?_
  refine .guard (fun s _ => other _ s) fun _ => ?_
  have written : Ensures (fun s => s.output.bytes = front ∧ s.only Call.isEntry = calls)
      (emit (LocalRecord.emitNew entry.name stamp (deflate entry.data)
        (Crc32.checksum entry.data) (UInt32.ofNat entry.data.length)) : Run σ Nat)
      (fun _ s => ((LossyUtf8.encode entry.name).length < 65536 ∧
        s.output.bytes = front ++ entry.localBytes deflate stamp) ∧
          s.only Call.isEntry = calls)
      (FailsWith deflate stamp known entry front calls) := by
    refine (ensures_emit_of (LocalRecord.ensures_emitNew front ..) fun (_ : σ) made =>
      made.toList.filter (fun call => call.1.isEntry) = calls).weaken (fun _ pre => pre)
        (fun _ _ post => post) ?_
    rintro error s ⟨stopped, only⟩
    exact ⟨⟨stopped, fun taken => absurd taken fresh⟩, only⟩
  refine written.bind fun _ => ?_
  -- The name fits, so the directory record can be made.
  rintro s ⟨⟨nameFits, wrote⟩, only⟩
  obtain ⟨record, made⟩ : ∃ record, DirectoryRecord.newDeflated entry.name stamp
      (Crc32.checksum entry.data) (UInt32.ofNat (deflate entry.data).length)
      (UInt32.ofNat entry.data.length) offset = .ok record := ⟨_, dif_pos nameFits⟩
  rw [made]
  exact ⟨⟨wrote, only⟩, Bool.eq_false_iff.2 fresh, rfl⟩

/-! ### All new entries -/

/-- No name occurs twice among some new entries, and none was kept. -/
def Distinct (kept : List String) (entries : List NewEntry) : Prop :=
  ∀ front entry back, entries = front ++ entry :: back →
    entry.name ∉ kept ∧ entry.name ∉ front.map NewEntry.name

theorem Distinct.snoc {kept : List String} {done : List NewEntry} {next : NewEntry}
    (distinct : Distinct kept done) (unkept : next.name ∉ kept)
    (fresh : next.name ∉ done.map NewEntry.name) : Distinct kept (done ++ [next]) := by
  intro front entry back split
  rcases List.eq_nil_or_concat back with rfl | ⟨back, last, rfl⟩
  · obtain ⟨rfl, same⟩ := List.append_inj' split rfl
    cases same
    exact ⟨unkept, fresh⟩
  · rw [List.concat_eq_append, ← List.cons_append, ← List.append_assoc] at split
    exact distinct front entry back (List.append_inj_left' split rfl)

section Loop

variable (deflate : Bytes → Bytes) (stamp : Timestamp) (kept : List String)
variable (entries : List NewEntry) (base : Bytes)

/-- What was written if some new entries come after `base`. -/
def writtenAfter (done : List NewEntry) : Bytes :=
  base ++ done.flatMap (NewEntry.localBytes deflate stamp)

/-- How far the loop has come: some entries were written, and their names and those that were kept
are known. -/
def Adding (todo : List NewEntry) (known : Additions) (output : Bytes) : Prop :=
  ∃ done, entries = done ++ todo ∧ output = writtenAfter deflate stamp base done ∧
    Distinct kept done ∧ ∀ name, known.names.contains name = false ↔
      name ∉ kept ∧ name ∉ done.map NewEntry.name

/-- The loop has failed at one of the entries, and all entries before it were written. -/
def FailsAmong (error : Error) (output : Bytes) : Prop :=
  ∃ done next todo, entries = done ++ next :: todo ∧ Distinct kept done ∧
    FailsAt (writtenAfter deflate stamp base done) (next.localBytes deflate stamp) next.name
      (next.name ∈ kept ∨ next.name ∈ done.map NewEntry.name) error output

end Loop

variable {kept : List String} {entries : List NewEntry} {base : Bytes}
variable {calls : List (Call × Nat)}

theorem ensures_foldlM_addEntry {known : Additions}
    (names : ∀ name, known.names.contains name = false ↔ name ∉ kept) :
    Ensures (fun s => s.output.bytes = base ∧ s.only Call.isEntry = calls)
      (entries.foldlM (addEntry engine deflate stamp) known)
      (fun _ s => Distinct kept entries ∧ s.only Call.isEntry = calls)
      fun error s => FailsAmong deflate stamp kept entries base error s.output.bytes ∧
        s.only Call.isEntry = calls := by
  have loop : Ensures
      (fun s => Adding deflate stamp kept entries base entries known s.output.bytes ∧
        s.only Call.isEntry = calls)
      (entries.foldlM (addEntry engine deflate stamp) known)
      (fun known s => Adding deflate stamp kept entries base [] known s.output.bytes ∧
        s.only Call.isEntry = calls)
      fun error s => FailsAmong deflate stamp kept entries base error s.output.bytes ∧
        s.only Call.isEntry = calls := by
    refine Ensures.foldlM (I := fun todo known (s : Session σ) =>
      Adding deflate stamp kept entries base todo known s.output.bytes ∧
        s.only Call.isEntry = calls) ?_ entries known
    rintro next todo known s ⟨⟨done, split, wrote, distinct, names⟩, only⟩
    have taken : known.names.contains next.name = true ↔
        next.name ∈ kept ∨ next.name ∈ done.map NewEntry.name := by
      grind
    refine ((ensures_addEntry known next (writtenAfter deflate stamp base done) calls).weaken
      (fun _ pre => pre) ?_ ?_) ⟨wrote, only⟩
    · rintro known' s' ⟨⟨wrote, only⟩, fresh, names'⟩
      obtain ⟨unkept, other⟩ := (names next.name).1 fresh
      refine ⟨⟨done ++ [next], ?_, ?_, distinct.snoc unkept other, ?_⟩, only⟩
      · rw [split, List.append_assoc, List.singleton_append]
      · simp [wrote, writtenAfter]
      · intro name
        rw [names', Directory.contains_insert_eq_false_iff, names]
        simp only [List.map_append, List.map_cons, List.map_nil, List.mem_append,
          List.mem_singleton]
        grind
    · rintro error s' ⟨fails, only⟩
      exact ⟨⟨done, next, todo, split, distinct, fails.stopped,
        fun again => fails.refused (taken.2 again)⟩, only⟩
  refine loop.weaken ?_ ?_ fun _ _ fails => fails
  · rintro s ⟨same, only⟩
    refine ⟨⟨[], rfl, by simp [same, writtenAfter], ?_, by simpa using names⟩, only⟩
    intro front entry back split
    simp at split
  · rintro known' s ⟨⟨done, split, -, distinct, -⟩, only⟩
    rw [List.append_nil] at split
    exact ⟨split ▸ distinct, only⟩

/-! ### What the calls say -/

/-- New entries were supplied of which one has the name of an entry of the input that was kept, or
of a new entry before it. -/
structure Repeats (calls : List (Call × Nat)) (front : List NewEntry) (entry : NewEntry)
    (place : Nat) : Prop where
  supplied : ∃ back, (Call.newEntries (some (some (front ++ entry :: back))), place) ∈ calls
  taken : (entry.name, Disposition.keep) ∈ calls.filterMap (fun call => call.1.decision?) ∨
    entry.name ∈ front.map NewEntry.name

/-- Nothing of an entry is written whose name is taken, and if the entries before it were written,
the run fails for the name. -/
def Refuses (deflate : Bytes → Bytes) (error : Error) (s : Session σ) : Prop :=
  ∀ front entry place, Repeats s.calls.toList front entry place → ∃ stamp,
    s.output.bytes.drop place <+: front.flatMap (NewEntry.localBytes deflate stamp) ∧
      (s.output.bytes.drop place = front.flatMap (NewEntry.localBytes deflate stamp) →
        error = nameTaken entry.name)

/-- No name was taken. -/
def Unrepeated (calls : List (Call × Nat)) : Prop :=
  ∀ front entry place, ¬ Repeats calls front entry place

theorem Unrepeated.refuses {s : Session σ} {error : Error} (fine : Unrepeated s.calls.toList) :
    Refuses deflate error s := fun front entry place repeats =>
  absurd repeats (fine front entry place)

/-- Before new entries are supplied, no name can come again. -/
theorem unrepeated_of_only {s : Session σ}
    (none_supplied : s.only (fun call => call.supply?.isSome) = []) :
    Unrepeated s.calls.toList := by
  rintro front entry place ⟨⟨back, mem⟩, -⟩
  have supplied : (Call.newEntries (some (some (front ++ entry :: back))), place) ∈
      s.only fun call => call.supply?.isSome := List.mem_filter.2 ⟨mem, rfl⟩
  rw [none_supplied] at supplied
  cases supplied

theorem decisions_only (s : Session σ) :
    (s.only Call.isEntry).filterMap (fun call => call.1.decision?) = s.decisions := by
  rw [Session.only, List.filterMap_filter, Session.decisions]
  congr 1
  funext call
  cases decided : call.1.decision? <;> simp [Call.isEntry, decided]

theorem Repeats.only_iff {s : Session σ} {front : List NewEntry} {entry : NewEntry} {place : Nat} :
    Repeats (s.only Call.isEntry) front entry place ↔
      Repeats s.calls.toList front entry place := by
  constructor
  · rintro ⟨⟨back, mem⟩, taken⟩
    rw [decisions_only] at taken
    exact ⟨⟨back, (List.mem_filter.1 mem).1⟩, taken⟩
  · rintro ⟨⟨back, mem⟩, taken⟩
    refine ⟨⟨back, List.mem_filter.2 ⟨mem, rfl⟩⟩, ?_⟩
    rw [decisions_only]
    exact taken

theorem unrepeated_only_iff {s : Session σ} :
    Unrepeated (s.only Call.isEntry) ↔ Unrepeated s.calls.toList := by
  constructor
  · intro fine front entry place repeats
    exact fine front entry place (Repeats.only_iff.2 repeats)
  · intro fine front entry place repeats
    exact fine front entry place (Repeats.only_iff.1 repeats)

theorem keeps_unrepeated {s t : Session σ} (none_made : NoCalls Call.isEntry s t)
    (fine : Unrepeated s.calls.toList) : Unrepeated t.calls.toList := by
  rw [← unrepeated_only_iff] at fine ⊢
  rwa [none_made]

/-- What is known of the calls once new entries were supplied: the entries, how much had been
written before, and the names of the entries of the input that were kept. -/
structure Supplied (kept : List String) (entries : List NewEntry) (place : Nat)
    (calls : List (Call × Nat)) : Prop where
  entries : ∀ {other place'}, (Call.newEntries (some (some other)), place') ∈ calls →
    other = entries ∧ place' = place
  kept : ∀ {name}, (name, Disposition.keep) ∈ calls.filterMap (fun call => call.1.decision?) →
    name ∈ kept

theorem Supplied.unrepeated {place : Nat} (supplied : Supplied kept entries place calls)
    (distinct : Distinct kept entries) : Unrepeated calls := by
  rintro front entry place ⟨⟨back, mem⟩, taken⟩
  obtain ⟨unkept, fresh⟩ := distinct front entry back (supplied.entries mem).1.symm
  rcases taken with old | again
  · exact unkept (supplied.kept old)
  · exact fresh again

/-- The entry at which the loop has failed comes before the one whose name is taken, or it is that
one. -/
theorem FailsAmong.refuses {s : Session σ} {error : Error}
    (supplied : Supplied kept entries base.length (s.only Call.isEntry))
    (fails : FailsAmong deflate stamp kept entries base error s.output.bytes) :
    Refuses deflate error s := by
  intro front entry place repeats
  obtain ⟨⟨back, mem⟩, taken⟩ := Repeats.only_iff.2 repeats
  obtain ⟨split, rfl⟩ := supplied.entries mem
  obtain ⟨done, next, todo, rfl, distinct, ⟨part, isPart, less, wrote⟩, refused⟩ := fails
  refine ⟨stamp, ?_⟩
  have since : s.output.bytes.drop base.length =
      done.flatMap (NewEntry.localBytes deflate stamp) ++ part := by
    rw [wrote, writtenAfter, List.append_assoc, List.drop_left]
  have taken : entry.name ∈ kept ∨ entry.name ∈ front.map NewEntry.name :=
    taken.imp_left supplied.kept
  -- Everything up to the entry at which the loop has failed has a name of its own.
  rcases List.append_eq_append_iff.1 split with ⟨mid, rfl, rest⟩ | ⟨mid, rfl, rest⟩
  · cases mid with
    | nil =>
      cases rest
      rw [List.append_nil] at refused distinct since
      obtain ⟨same, blamed⟩ := refused taken
      rw [same, writtenAfter, List.drop_left]
      exact ⟨List.prefix_rfl, fun _ => blamed⟩
    | cons first mid =>
      cases rest
      obtain ⟨unkept, fresh⟩ := distinct front entry mid rfl
      rcases taken with old | again
      · exact absurd old unkept
      · exact absurd again fresh
  · cases mid with
    | nil =>
      cases rest
      rw [List.append_nil] at taken ⊢
      obtain ⟨same, blamed⟩ := refused taken
      rw [same, writtenAfter, List.drop_left]
      exact ⟨List.prefix_rfl, fun _ => blamed⟩
    | cons first mid =>
      cases rest
      obtain ⟨left, whole⟩ := isPart
      rw [since, List.flatMap_append, List.flatMap_cons]
      refine ⟨?_, fun same => ?_⟩
      · rw [List.prefix_append_right_inj, ← whole, List.append_assoc]
        exact List.prefix_append ..
      · have lengths := congrArg List.length same
        simp only [List.length_append] at lengths
        omega

/-! ### The run -/

/-- The calls before the new entries: the answers for the entries of the input that were kept. -/
def Unsupplied (kept : List String) (s : Session σ) : Prop :=
  s.only (fun call => call.supply?.isSome) = [] ∧
    ∀ name, (name, Disposition.keep) ∈ s.decisions → name ∈ kept

theorem ensures_askNewEntries (kept : List String) :
    Ensures (Unsupplied kept) (ask engine.newEntries .newEntries)
      (fun answer s => match answer with
        | none => Unrepeated s.calls.toList
        | some entries => Supplied kept entries s.output.bytes.length (s.only Call.isEntry))
      (Refuses deflate) := by
  rintro ⟨state, output, calls, notices⟩ ⟨none_supplied, only_kept⟩
  have none_supplied (entries : List NewEntry) (place : Nat) :
      (Call.newEntries (some (some entries)), place) ∉ calls.toList := by
    intro mem
    have supplied : (Call.newEntries (some (some entries)), place) ∈
        calls.toList.filter fun call => call.1.supply?.isSome := List.mem_filter.2 ⟨mem, rfl⟩
    rw [show calls.toList.filter _ = [] from none_supplied] at supplied
    cases supplied
  unfold ask
  dsimp only
  cases engine.newEntries.run state with
  | ok answer after =>
    cases answer with
    | none =>
      rintro front entry place ⟨⟨back, mem⟩, -⟩
      simp [none_supplied] at mem
    | some entries =>
      constructor
      · intro other place mem
        simpa [none_supplied] using (List.mem_filter.1 mem).1
      · intro name mem
        rw [decisions_only] at mem
        exact only_kept name (by simpa [Session.decisions, Call.decision?] using mem)
  | error failure after =>
    rintro front entry place ⟨⟨back, mem⟩, -⟩
    simp [none_supplied] at mem

theorem ensures_addEntries (kept : List DirectoryRecord) (offset : Nat) :
    Ensures (Unsupplied (Directory.names kept)) (addEntries engine deflate kept offset)
      (fun _ s => Unrepeated s.calls.toList) (Refuses deflate) := by
  unfold addEntries
  refine (ensures_askNewEntries _).bind fun answer => ?_
  cases answer with
  | none => exact (Ensures.pure _).post fun _ _ post => post.2
  | some entries =>
    intro s supplied
    have names (name : String) : (Std.TreeSet.ofList (kept.map (·.name))).contains name = false ↔
        name ∉ Directory.names kept := by
      rw [Std.TreeSet.contains_ofList, List.contains_eq_mem, decide_eq_false_iff_not]
      rfl
    have loop : Ensures (fun s' => s'.output.bytes = s.output.bytes ∧
          s'.only Call.isEntry = s.only Call.isEntry)
        (entries.foldlM (addEntry engine deflate (newStamp kept))
          { names := .ofList (kept.map (·.name)), offset })
        (fun _ s' => Unrepeated (s'.only Call.isEntry)) (Refuses deflate) := by
      refine (ensures_foldlM_addEntry names).weaken (fun _ pre => pre) ?_ ?_
      · rintro _ s' ⟨distinct, only⟩
        rw [only]
        exact supplied.unrepeated distinct
      · rintro error s' ⟨fails, only⟩
        exact fails.refuses (only ▸ supplied)
    refine (loop.bind ?_) ⟨rfl, rfl⟩
    intro known
    have told : Moves (NoCalls Call.isEntry) (do
        ask engine.newEntriesWritten fun _ => .newEntriesWritten
        return (known.records.reverse, known.offset)) :=
      (Moves.ask fun _ => allows_noCalls rfl).bind fun _ => .pure _
    exact (told.ensures keeps_unrepeated).weaken (fun _ => unrepeated_only_iff.1)
      (fun _ _ fine => fine) fun _ _ fine => fine.refuses

/-- The names of the entries that were kept are those for which the engine decided so. -/
theorem mem_names_of_sweepEntries {entries : View} {records : List DirectoryRecord} {sweep : Sweep}
    {s s' : Session σ} (nothing : s.decisions = [])
    (run : sweepEntries engine config entries records s = .ok sweep s') {name : String}
    (kept : (name, Disposition.keep) ∈ s'.decisions) : name ∈ Directory.names sweep.records := by
  obtain ⟨pieces, covered, order, sound, laid, extended, -, fates⟩ := sweepEntries_eq_ok run
  obtain ⟨listed, perm, listing, recordsKept⟩ := exists_directory_order order
  rw [recordsKept sweep (Sweep.keptSoFar_of_fates fates), names_moved, Directory.names,
    List.map_map]
  rw [Session.decisions_eq, extended.milestones, List.filterMap_append, ← Session.decisions_eq,
    nothing, List.nil_append, filterMap_map_of_some (f := Piece.call) (g := Call.decision?)
      (fun _ => rfl) pieces, List.mem_map] at kept
  obtain ⟨piece, mem, same⟩ := kept
  rw [Prod.mk.injEq] at same
  obtain ⟨rfl, decided⟩ := same
  have isKept : piece.isKept = true := decide_eq_true decided
  exact List.mem_map.2 ⟨piece, List.mem_filter.2 ⟨perm.mem_iff.2 mem, isKept⟩, rfl⟩

/-- Only the part that adds entries has to do with names that come again; before it no entry was
supplied, and after it nothing changes that matters. -/
theorem ensures_sign_refuses (engine : Engine σ) (config : Config) (input : View)
    (deflate : Bytes → Bytes) :
    Ensures (fun s => s.calls = #[]) (sign engine config input deflate)
      (fun _ s => Unrepeated s.calls.toList) (Refuses deflate) := by
  have nothing (error : Error) (s : Session σ) (none_made : s.only Call.isEntry = []) :
      Refuses deflate error s := by
    refine Unrepeated.refuses (unrepeated_only_iff.1 ?_)
    rw [none_made]
    rintro front entry place ⟨⟨back, mem⟩, -⟩
    cases mem
  have early {α : Type} {x : Run σ α} (moves : Moves (NoCalls Call.isEntry) x) :
      Ensures (fun s => s.only Call.isEntry = []) x (fun _ s => s.only Call.isEntry = [])
        (Refuses deflate) :=
    (moves.ensures fun none_made pre => none_made.trans pre).weaken (fun _ pre => pre)
      (fun _ _ post => post) nothing
  have late {α : Type} {x : Run σ α} (moves : Moves (NoCalls Call.isEntry) x) :
      Ensures (fun s => Unrepeated s.calls.toList) x (fun _ s => Unrepeated s.calls.toList)
        (Refuses deflate) :=
    (moves.ensures keeps_unrepeated).weaken (fun _ pre => pre) (fun _ _ post => post)
      fun _ _ fine => fine.refuses
  have swept (entries : View) (records : List DirectoryRecord) :
      Ensures (fun s => s.only Call.isEntry = []) (sweepEntries engine config entries records)
        (fun sweep s => Unsupplied (Directory.names sweep.records) s) (Refuses deflate) := by
    have none_supplied : Moves (NoCalls fun call => call.supply?.isSome)
        (sweepEntries engine config entries records) :=
      moves_sweepEntries {
        shown _ _ _ := allows_noCalls rfl
        asked _ _ := allows_noCalls rfl
        written _ _ := allows_noCalls rfl
        writes := allowsWrites_noCalls } entries records
    have supplies : Ensures (fun s => s.only Call.isEntry = [])
        (sweepEntries engine config entries records)
        (fun _ s => s.only (fun call => call.supply?.isSome) = [])
        fun _ s => s.only (fun call => call.supply?.isSome) = [] := by
      refine (none_supplied.ensures fun none_made pre => none_made.trans pre).pre
        fun s nothing => ?_
      rw [Session.only, List.filter_eq_nil_iff] at nothing
      refine List.filter_eq_nil_iff.2 fun call mem supplied => nothing call mem ?_
      simp [Call.isEntry, supplied]
    have decided : Ensures (fun s => s.only Call.isEntry = [])
        (sweepEntries engine config entries records)
        (fun sweep s => Unsupplied (Directory.names sweep.records) s)
        fun _ s => s.only (fun call => call.supply?.isSome) = [] := by
      refine supplies.also fun s sweep s' nothing run name kept => ?_
      refine mem_names_of_sweepEntries ?_ run kept
      rw [← decisions_only, nothing]
      rfl
    exact decided.weaken (fun _ pre => pre) (fun _ _ post => post) fun error s nothing =>
      (unrepeated_of_only nothing).refuses
  refine .pre (P := fun s => s.only Call.isEntry = []) ?_ ?_
  · unfold sign
    refine ensures_position_bind fun _ => .pre ?_ fun s pre => pre.1
    refine .guard (fun s _ => nothing _ s) fun _ => ?_
    refine .ofExcept_bind (fun error s _ => nothing error s) fun sections _ => ?_
    refine (early (.note? _)).bind fun _ => ?_
    refine .ofExcept_bind (fun error s _ => nothing error s) fun directory _ => ?_
    refine .ofExcept_bind (fun error s _ => nothing error s) fun records _ => ?_
    refine (early (.note _)).bind fun _ => ?_
    refine (early (.ask fun _ => allows_noCalls rfl)).bind fun _ => ?_
    refine .ofExcept_bind (fun error s _ => nothing error s) fun entries _ => ?_
    refine (swept entries records).bind fun sweep => (ensures_addEntries _ _).bind fun added => ?_
    refine (late (moves_writeDirectory (fun _ _ => allows_noCalls rfl) (allows_noCalls rfl)
      allowsWrites_noCalls _ _ _)).bind fun blockSize => ?_
    refine late (.position_bind fun size => ?_)
    exact (Moves.ask fun _ => allows_noCalls rfl).bind fun _ => (Moves.note _).bind fun _ =>
      .pure _
  · rintro s empty
    rw [Session.only, empty]
    rfl

end Signing
end ApkArchive

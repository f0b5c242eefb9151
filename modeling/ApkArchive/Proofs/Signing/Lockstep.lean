import ApkArchive.Proofs.Signing.Additions
import ApkArchive.Proofs.Signing.Frames
import ApkArchive.Proofs.Storage.Tandem
import ApkArchive.Proofs.Zip.Reordered
import ApkArchive.Proofs.Zip.Timestamp
import Mathlib.Data.List.Nodup

/-!
# Runs in lockstep

Two runs are abreast as long as they have done the same: the engine is in the same state, the same
bytes are written and the same calls were made. They may know an entry by different numbers, and may
have found the signing block of the input in different places. All parts of a run up to the
directory of the output keep them abreast, for records in any order:

    Lockstep earlier x y Q: if x succeeds so does y, with results in Q, and they stay abreast
-/

namespace ApkArchive.Signing

open Run

/-- A call as the engine sees it: the signing block of the input is its bytes, wherever they are. -/
def Call.seen : Call → Call
  | .inputBlock block => .inputBlock (block.map fun view => .ofBytes (view.bytes 0 view.size))
  | call => call

theorem Call.round?_seen (call : Call) : call.seen.round? = call.round? := by
  cases call <;> rfl

/-- The calls as the engine has seen them, with the numbers of bytes written before them. -/
def seenCalls (calls : List (Call × Nat)) : List (Call × Nat) :=
  calls.map fun call => (call.1.seen, call.2)

theorem filterMap_seenCalls (calls : List (Call × Nat)) :
    (seenCalls calls).filterMap (fun call => call.1.round?) =
      calls.filterMap fun call => call.1.round? := by
  rw [seenCalls, List.filterMap_map]
  congr 1
  funext call
  exact call.1.round?_seen

/-- The engine has not been asked for a signing block. -/
def Unasked (s : Session σ) : Prop := s.rounds = []

/-- Two runs that began with the output `earlier` have done the same, and neither has asked for a
signing block. -/
structure Abreast (earlier : Sink) (s t : Session σ) : Prop where
  engine : s.engine = t.engine
  output : s.output = t.output
  calls : seenCalls s.calls.toList = seenCalls t.calls.toList
  later : earlier.Later s.output
  unasked : Unasked s

theorem Abreast.unasked_right {earlier : Sink} {s t : Session σ} (abreast : Abreast earlier s t) :
    Unasked t := by
  have none := abreast.unasked
  unfold Unasked Session.rounds at none ⊢
  rw [← filterMap_seenCalls, ← abreast.calls, filterMap_seenCalls, none]

/-- If `x` succeeds so does `y`, with results in `Q`, and the runs stay abreast. If it fails, it has
not asked for a signing block. -/
def Lockstep (earlier : Sink) (x : Run σ α) (y : Run σ β) (Q : α → β → Prop) : Prop :=
  Pairs (Abreast earlier) x y (Tandem (fun a b s t => Q a b ∧ Abreast earlier s t) Unasked)

variable {earlier : Sink}

/-! ### Steps -/

theorem pairs_position_bind {f : Nat → Run σ α} {g : Nat → Run σ β}
    {O : EStateM.Result Error (Session σ) α → EStateM.Result Error (Session σ) β → Prop}
    (rest : ∀ n, Pairs (fun s t => Abreast earlier s t ∧ s.output.position = n) (f n) (g n) O) :
    Pairs (Abreast earlier) (position >>= f) (position >>= g) O := by
  intro s t abreast
  have same : (position >>= g) t = g s.output.position t := by
    rw [abreast.output]
    rfl
  rw [same]
  exact rest s.output.position ⟨abreast, rfl⟩

namespace Lockstep

/-- After parts in lockstep, what is left to do is compared from sessions that are abreast. -/
theorem andThen {x : Run σ α} {y : Run σ δ} {f : α → Run σ β} {g : δ → Run σ γ} {Q : α → δ → Prop}
    {O : EStateM.Result Error (Session σ) β → EStateM.Result Error (Session σ) γ → Prop}
    (first : Lockstep earlier x y Q) (excuses : Excuses Unasked O)
    (rest : ∀ a b, Q a b → Pairs (Abreast earlier) (f a) (g b) O) :
    Pairs (Abreast earlier) (x >>= f) (y >>= g) O :=
  Pairs.bind excuses first fun a b _ _ post => rest a b post.1 post.2

theorem bind {x : Run σ α} {y : Run σ δ} {f : α → Run σ β} {g : δ → Run σ γ} {P : α → δ → Prop}
    {Q : β → γ → Prop} (first : Lockstep earlier x y P)
    (rest : ∀ a b, P a b → Lockstep earlier (f a) (g b) Q) :
    Lockstep earlier (x >>= f) (y >>= g) Q := first.andThen Tandem.excuses rest

/-- What is known of the first session is kept up on the way: the session in which a part succeeds
says it of the session after it. -/
theorem andThen_of_runs {P : Session σ → Prop} {x : Run σ α} {y : Run σ δ} {f : α → Run σ β}
    {g : δ → Run σ γ} {Q : α → δ → Prop} {S : α → Session σ → Prop}
    {O : EStateM.Result Error (Session σ) β → EStateM.Result Error (Session σ) γ → Prop}
    (first : Lockstep earlier x y Q) (excuses : Excuses Unasked O)
    (after : ∀ s a s', P s → x s = .ok a s' → S a s')
    (rest : ∀ a b, Q a b → Pairs (fun s t => Abreast earlier s t ∧ S a s) (f a) (g b) O) :
    Pairs (fun s t => Abreast earlier s t ∧ P s) (x >>= f) (y >>= g) O := by
  refine Pairs.bind excuses (first.also after) ?_
  rintro a b s t ⟨⟨post, abreast⟩, known⟩
  exact rest a b post ⟨abreast, known⟩

theorem pure {a : α} {b : β} {Q : α → β → Prop} (post : Q a b) :
    Lockstep earlier (pure a : Run σ α) (pure b : Run σ β) Q :=
  Pairs.pure fun _ _ abreast => ⟨post, abreast⟩

theorem throw {error : Error} {y : Run σ β} {Q : α → β → Prop} :
    Lockstep earlier (throw error : Run σ α) y Q :=
  Pairs.throw Tandem.excuses fun _ _ abreast => abreast.unasked

theorem ofExcept_bind {result : Except Error α} {result' : Except Error δ} {f : α → Run σ β}
    {g : δ → Run σ γ} {Q : β → γ → Prop}
    (rest : ∀ a, result = .ok a → ∃ b, result' = .ok b ∧ Lockstep earlier (f a) (g b) Q) :
    Lockstep earlier (ofExcept result >>= f) (ofExcept result' >>= g) Q :=
  Pairs.ofExcept_bind Tandem.excuses (fun _ _ abreast => abreast.unasked) rest

theorem guard {c c' : Prop} [Decidable c] [Decidable c'] {error error' : Error} {x : Run σ α}
    {y : Run σ β} {Q : α → β → Prop} (passes : ¬ c → ¬ c') (rest : Lockstep earlier x y Q) :
    Lockstep earlier (if c then (do MonadExcept.throw error; x) else x)
      (if c' then (do MonadExcept.throw error'; y) else y) Q :=
  Pairs.guard Tandem.excuses (fun _ _ abreast => abreast.unasked) passes fun _ => rest

theorem ite {c : Prop} [Decidable c] {x x' : Run σ α} {y y' : Run σ β} {Q : α → β → Prop}
    (first : c → Lockstep earlier x y Q) (second : ¬ c → Lockstep earlier x' y' Q) :
    Lockstep earlier (if c then x else x') (if c then y else y') Q := Pairs.ite first second

theorem note (notice notice' : Notice) :
    Lockstep earlier (note notice : Run σ Unit) (note notice') fun _ _ => True := by
  rintro ⟨engine, output, calls, notices⟩ ⟨engine', output', calls', notices'⟩ abreast
  exact .ok ⟨trivial, abreast.engine, abreast.output, abreast.calls, abreast.later, abreast.unasked⟩

theorem note? (notice notice' : Option Notice) :
    Lockstep earlier (note? notice : Run σ Unit) (note? notice') fun _ _ => True := by
  rintro ⟨engine, output, calls, notices⟩ ⟨engine', output', calls', notices'⟩ abreast
  cases notice <;> cases notice' <;> exact .ok
    ⟨trivial, abreast.engine, abreast.output, abreast.calls, abreast.later, abreast.unasked⟩

/-- The same question is asked, in calls that look alike. -/
theorem ask {question question' : Ask σ α} {call call' : Option α → Call}
    (same : question = question') (seen : ∀ answer, (call answer).seen = (call' answer).seen)
    (other : ∀ answer, (call answer).round? = none) :
    Lockstep earlier (ask question call) (ask question' call') Eq := by
  subst same
  rintro ⟨engine, output, calls, notices⟩ ⟨engine', output', calls', notices'⟩ abreast
  have unasked : Unasked (⟨engine, output, calls, notices⟩ : Session σ) := abreast.unasked
  obtain rfl : engine = engine' := abreast.engine
  obtain rfl : output = output' := abreast.output
  have pushed (answer : Option α) (engine : σ) : Unasked
      (⟨engine, output, calls.push (call answer, output.position), notices⟩ : Session σ) := by
    unfold Unasked Session.rounds at unasked ⊢
    simp [unasked, other]
  unfold Run.ask
  dsimp only
  cases question.run engine with
  | ok a after =>
    refine .ok ⟨rfl, rfl, rfl, ?_, abreast.later, pushed (some a) after⟩
    have calls := abreast.calls
    simp only [seenCalls] at calls
    simp [seenCalls, calls, seen]
  | error failure after => exact .error _ (pushed none after)

theorem emit {action : Emit α} {limit : Nat} (appends : Sink.Appends action limit) :
    Lockstep earlier (emit action : Run σ α) (emit action) Eq := by
  rintro ⟨engine, output, calls, notices⟩ ⟨engine', output', calls', notices'⟩ abreast
  obtain rfl : output = output' := abreast.output
  have later := appends output rfl
  unfold Run.emit EStateM.run
  dsimp only
  cases run : action output with
  | ok a after =>
    rw [run] at later
    exact .ok ⟨rfl, abreast.engine, rfl, abreast.calls, abreast.later.trans later.1,
      abreast.unasked⟩
  | error error after => exact .error _ abreast.unasked

end Lockstep

/-! ### Entries of the input -/

variable {engine : Engine σ} {config : Config} {entries : View}

theorem lockstep_show? (stage : Stage) (name : String) (data : Emit Unit) (sink : Option Sink) :
    Lockstep earlier (show? engine stage name data sink) (show? engine stage name data sink)
      Eq := by
  unfold show?
  cases sink with
  | none => exact .pure rfl
  | some sink =>
    dsimp only
    cases data.run sink with
    | ok _ _ => exact .ask rfl (fun _ => rfl) fun _ => rfl
    | error _ _ => exact .throw

theorem lockstep_showData? (stage : Stage) (found : LocalRecord) (sink : Option Sink) :
    Lockstep earlier (showData? engine stage entries found sink)
      (showData? engine stage entries found sink) Eq := by
  have shows : Lockstep earlier (show? engine stage found.name (found.emitData entries) sink)
      (show? engine stage found.name (found.emitData entries) sink) Eq :=
    lockstep_show? _ _ _ _
  unfold showData?
  exact .ite (fun _ => (Lockstep.note _ _).bind fun _ _ _ => shows) fun _ => shows

/-- The new record of an entry that was kept. -/
def Fate.record? (fate : Fate) : Option DirectoryRecord := fate.kept?.map (·.1)

/-- The same was done with an entry that is known by two numbers, and as much was written. -/
def SettledAlike (settled settled' : Fate × Nat) : Prop :=
  settled.1.record? = settled'.1.record? ∧ settled.2 = settled'.2

/-- What becomes of an entry does not depend on its number. -/
theorem lockstep_copyEntry (record : DirectoryRecord) (number number' : Nat)
    (found : LocalRecord) (offset : Nat) :
    Lockstep earlier (copyEntry config entries record number found offset : Run σ (Fate × Nat))
      (copyEntry config entries record number' found offset) SettledAlike := by
  have copied {action : Emit Nat} {limit : Nat} {offset : UInt32} {realigned : Bool}
      (notice : Notice) (appends : Sink.Appends action limit) :
      Lockstep earlier
        (do
          let written ← emit action
          note notice
          return (.kept (record.withLocalOffset offset) number realigned, written) :
            Run σ (Fate × Nat))
        (do
          let written ← emit action
          note notice
          return (.kept (record.withLocalOffset offset) number' realigned, written) :
            Run σ (Fate × Nat))
        SettledAlike := by
    refine (Lockstep.emit appends).bind ?_
    rintro written _ rfl
    exact (Lockstep.note _ _).bind fun _ _ _ => .pure ⟨rfl, rfl⟩
  unfold copyEntry
  refine .ofExcept_bind fun newOffset field => ⟨newOffset, field, ?_⟩
  dsimp only
  cases config.alignment.plan found offset with
  | unchanged =>
    exact copied _ (found.appends_copy entries (Nat.le_succ _) (Nat.succ_pos _))
  | realign alignment extra =>
    exact (Lockstep.note _ _).bind fun _ _ _ => copied _
      (found.appends_copyWithExtra entries extra (Nat.le_succ _) (.inl (Nat.lt_succ_self _)))

theorem lockstep_settleEntry (record : DirectoryRecord) (number number' : Nat)
    (found : LocalRecord) (offset : Nat) :
    Lockstep earlier (settleEntry engine config entries record number found offset)
      (settleEntry engine config entries record number' found offset) SettledAlike := by
  unfold settleEntry
  refine (Lockstep.ask rfl (fun _ => rfl) fun _ => rfl).bind ?_
  rintro decision _ rfl
  refine (Lockstep.note? _ _).bind fun _ _ _ => (lockstep_showData? _ _ _).bind fun _ _ _ => ?_
  cases decision.disposition with
  | replace => exact (Lockstep.note _ _).bind fun _ _ _ => .pure ⟨rfl, rfl⟩
  | skip => exact (Lockstep.note _ _).bind fun _ _ _ => .pure ⟨rfl, rfl⟩
  | keep =>
    refine (Lockstep.ask rfl (fun _ => rfl) fun _ => rfl).bind ?_
    rintro sink _ rfl
    exact (lockstep_showData? _ _ _).bind fun _ _ _ => lockstep_copyEntry _ _ _ _ _

/-- Two sweeps have come equally far and made the same of the entries. -/
structure Sweep.Alike (sweep sweep' : Sweep) : Prop where
  covered : sweep.covered = sweep'.covered
  offset : sweep.offset = sweep'.offset
  records : sweep.fates.map Fate.record? = sweep'.fates.map Fate.record?

theorem lockstep_sweepEntry {sweep sweep' : Sweep} (alike : sweep.Alike sweep')
    (record : DirectoryRecord) (number number' : Nat) :
    Lockstep earlier (sweepEntry engine config entries sweep (record, number))
      (sweepEntry engine config entries sweep' (record, number')) Sweep.Alike := by
  unfold sweepEntry
  dsimp only
  refine .ofExcept_bind fun found located => ⟨found, ?_, ?_⟩
  · exact mapError_eq_ok_iff.2 (mapError_eq_ok_iff.1 located)
  have settled : Lockstep earlier
      (do
        let settled ← settleEntry engine config entries record number found
          (sweep.offset + (found.start - sweep.covered))
        return Sweep.mk (max sweep.covered found.stop)
          (sweep.offset + (found.start - sweep.covered) + settled.2) (settled.1 :: sweep.fates))
      (do
        let settled ← settleEntry engine config entries record number' found
          (sweep.offset + (found.start - sweep.covered))
        return Sweep.mk (max sweep'.covered found.stop)
          (sweep.offset + (found.start - sweep.covered) + settled.2) (settled.1 :: sweep'.fates))
      Sweep.Alike := by
    refine (lockstep_settleEntry record number number' found _).bind ?_
    rintro ⟨fate, written⟩ ⟨fate', written'⟩ ⟨same, count⟩
    refine .pure ⟨congrArg (max · found.stop) alike.covered, congrArg (_ + ·) count, ?_⟩
    rw [List.map_cons, List.map_cons, same, alike.records]
  rw [← alike.covered] at settled ⊢
  rw [← alike.offset]
  refine .ite (fun _ => ?_) fun _ => settled
  refine (Lockstep.note _ _).bind fun _ _ _ => ?_
  exact (Lockstep.emit (entries.appends_feed (Nat.le_succ _) (.inl (Nat.succ_pos _)))).bind
    fun _ _ _ => settled

theorem lockstep_sweepInOrder {records records' : List DirectoryRecord}
    (order : (Directory.inFileOrder records).map (·.1) =
      (Directory.inFileOrder records').map (·.1)) :
    Lockstep earlier (sweepEntries engine config entries records)
      (sweepEntries engine config entries records') Sweep.Alike := by
  have swept : Lockstep earlier
      ((Directory.inFileOrder records).foldlM (sweepEntry engine config entries) {})
      ((Directory.inFileOrder records').foldlM (sweepEntry engine config entries) {})
      Sweep.Alike := by
    have keeps (sweep sweep' : Sweep) (entry entry' : DirectoryRecord × Nat)
        (same : entry.1 = entry'.1) :
        Pairs (fun s t => sweep.Alike sweep' ∧ Abreast earlier s t)
          (sweepEntry engine config entries sweep entry)
          (sweepEntry engine config entries sweep' entry')
          (Tandem (fun sweep sweep' s t => sweep.Alike sweep' ∧ Abreast earlier s t) Unasked) := by
      obtain ⟨record, number⟩ := entry
      obtain ⟨_, number'⟩ := entry'
      cases same
      rintro s t ⟨alike, abreast⟩
      exact lockstep_sweepEntry alike record number number' abreast
    intro s t abreast
    exact Pairs.foldlM keeps order {} {} ⟨⟨rfl, rfl, rfl⟩, abreast⟩
  unfold sweepEntries
  refine swept.bind fun sweep sweep' alike => ?_
  rw [← alike.covered, ← alike.offset]
  have ended (offset : Nat) :
      Sweep.Alike ⟨sweep.covered, offset, sweep.fates⟩ ⟨sweep.covered, offset, sweep'.fates⟩ :=
    ⟨rfl, rfl, alike.records⟩
  refine .ite (fun _ => ?_) fun _ => .pure (ended _)
  refine (Lockstep.note _ _).bind fun _ _ _ => ?_
  exact (Lockstep.emit (entries.appends_feed (Nat.le_succ _) (.inl (Nat.succ_pos _)))).bind
    fun _ _ _ => .pure (ended _)

theorem sweepEntries_of_alike {entries' : View} (alike : entries.Alike entries') :
    sweepEntries engine config entries = sweepEntries engine config entries' := by
  have copied : (copyEntry config entries :
      DirectoryRecord → Nat → LocalRecord → Nat → Run σ (Fate × Nat)) =
        copyEntry config entries' := by
    funext record number found offset
    unfold copyEntry
    rw [found.copy_of_alike alike, found.copyWithExtra_of_alike alike]
  have shown (stage : Stage) (found : LocalRecord) :
      showData? engine stage entries found = showData? engine stage entries' found := by
    funext sink
    unfold showData?
    rw [found.emitData_of_alike alike]
  have swept : sweepEntry engine config entries = sweepEntry engine config entries' := by
    funext sweep entry
    unfold sweepEntry settleEntry
    simp only [LocalRecord.locate_of_alike alike, alike.size_eq, alike.feed_eq, shown, copied]
  funext records
  unfold sweepEntries
  rw [swept, alike.size_eq, alike.feed_eq]

/-- If all entries are located, no two of their records point to the same place. -/
theorem apart_of_sweepEntries {records : List DirectoryRecord} {sweep : Sweep} {s s' : Session σ}
    (distinct : (Directory.names records).Nodup)
    (run : sweepEntries engine config entries records s = .ok sweep s') :
    ∀ first ∈ records, ∀ second ∈ records, first.localOffset = second.localOffset →
      first = second := by
  obtain ⟨pieces, _, order, sound, -⟩ := sweepEntries_eq_ok run
  have located (record : DirectoryRecord) (mem : record ∈ records) :
      ∃ found, LocalRecord.locate entries record entries.size = .ok found := by
    obtain ⟨number, mem⟩ := Directory.mem_iff_exists_mem_inFileOrder.1 mem
    rw [← order] at mem
    obtain ⟨piece, among, same⟩ := List.mem_map.1 mem
    obtain ⟨rfl, -⟩ := Prod.mk.inj same
    exact ⟨_, (sound piece among).located⟩
  intro first mem second mem' same
  obtain ⟨found, here⟩ := located first mem
  obtain ⟨found', here'⟩ := located second mem'
  have names : first.name = second.name := by
    rw [DirectoryRecord.name, DirectoryRecord.name,
      LocalRecord.nameBytes_of_same_offset here here' same]
  exact List.inj_on_of_nodup_map distinct mem mem' names

/-- The records may be in any order: either they have the same file order, or a sweep fails. -/
theorem lockstep_sweepEntries {entries' : View} {records records' : List DirectoryRecord}
    (alike : entries.Alike entries') (perm : records.Perm records')
    (distinct : (Directory.names records).Nodup) :
    Lockstep earlier (sweepEntries engine config entries records)
      (sweepEntries engine config entries' records') Sweep.Alike := by
  rw [← sweepEntries_of_alike alike]
  intro s t abreast
  cases run : sweepEntries engine config entries records s with
  | ok sweep s' =>
    have order := Directory.map_fst_inFileOrder_of_perm perm (apart_of_sweepEntries distinct run)
    rw [← run]
    exact lockstep_sweepInOrder order abreast
  | error error s' =>
    -- Records with one place may be in another file order, so the sweep is compared with itself.
    have alone : Lockstep earlier (sweepEntries engine config entries records)
        (sweepEntries engine config entries records) Sweep.Alike := lockstep_sweepInOrder rfl
    exact .error _ (Pairs.error alone ⟨rfl, rfl, rfl, abreast.later, abreast.unasked⟩ run)

/-! ### New entries -/

/-- Two runs have added the same entries, and the same names are taken. -/
structure Additions.Alike (known known' : Additions) : Prop where
  records : known.records = known'.records
  names : ∀ name, known.names.contains name = known'.names.contains name
  offset : known.offset = known'.offset

/-- Nothing is added, and the names of the entries that were kept are taken. -/
def Additions.after (kept : List DirectoryRecord) (offset : Nat) : Additions where
  names := .ofList (kept.map (·.name))
  offset

theorem Additions.alike_of_perm {kept kept' : List DirectoryRecord} (perm : kept.Perm kept')
    (offset : Nat) : (after kept offset).Alike (after kept' offset) := by
  refine ⟨rfl, fun name => ?_, rfl⟩
  rw [after, after, Std.TreeSet.contains_ofList, Std.TreeSet.contains_ofList, Bool.eq_iff_iff,
    List.contains_iff_mem, List.contains_iff_mem]
  exact (perm.map _).mem_iff

variable {deflate : Bytes → Bytes} {stamp : Timestamp}

theorem lockstep_addEntry {known known' : Additions} (alike : known.Alike known')
    (entry : NewEntry) :
    Lockstep earlier (addEntry engine deflate stamp known entry)
      (addEntry engine deflate stamp known' entry) Additions.Alike := by
  unfold addEntry
  dsimp only
  refine .guard (fun fresh => alike.names entry.name ▸ fresh) ?_
  refine (Lockstep.ask rfl (fun _ => rfl) fun _ => rfl).bind ?_
  rintro sink _ rfl
  refine (lockstep_show? _ _ _ _).bind fun _ _ _ => ?_
  refine .ofExcept_bind fun word field => ⟨word, alike.offset ▸ field, ?_⟩
  refine .guard id ((Lockstep.emit (LocalRecord.appends_emitNew _ _ _ _ _)).bind ?_)
  rintro written _ rfl
  refine .ofExcept_bind fun record made => ⟨record, made, ?_⟩
  refine (Lockstep.note _ _).bind fun _ _ _ => .pure ⟨?_, fun name => ?_, ?_⟩
  · exact congrArg (record :: ·) alike.records
  · rw [Std.TreeSet.contains_insert, Std.TreeSet.contains_insert, alike.names]
  · exact congrArg (· + written) alike.offset

theorem newStamp_of_perm {kept kept' : List DirectoryRecord} (perm : kept.Perm kept') :
    newStamp kept = newStamp kept' := by
  rw [newStamp, newStamp, Timestamp.latest?_of_perm (perm.map _)]

/-- Neither the names that are taken nor the latest timestamp depend on an order. -/
theorem lockstep_addEntries {kept kept' : List DirectoryRecord} (perm : kept.Perm kept')
    (offset : Nat) :
    Lockstep earlier (addEntries engine deflate kept offset)
      (addEntries engine deflate kept' offset) Eq := by
  have stamps := newStamp_of_perm perm
  unfold newStamp at stamps
  unfold addEntries
  refine (Lockstep.ask rfl (fun _ => rfl) fun _ => rfl).bind ?_
  rintro answer _ rfl
  cases answer with
  | none => exact .pure rfl
  | some added =>
    dsimp only
    rw [← stamps]
    have keeps (known known' : Additions) (entry entry' : NewEntry) (same : id entry = id entry') :
        Pairs (fun s t => known.Alike known' ∧ Abreast earlier s t)
          (addEntry engine deflate (newStamp kept) known entry)
          (addEntry engine deflate (newStamp kept) known' entry')
          (Tandem (fun known known' s t => known.Alike known' ∧ Abreast earlier s t) Unasked) := by
      cases same
      rintro s t ⟨alike, abreast⟩
      exact lockstep_addEntry alike entry abreast
    have adds : Lockstep earlier
        (added.foldlM (addEntry engine deflate (newStamp kept)) (.after kept offset))
        (added.foldlM (addEntry engine deflate (newStamp kept)) (.after kept' offset))
        Additions.Alike := by
      intro s t abreast
      exact Pairs.foldlM keeps rfl _ _ ⟨Additions.alike_of_perm perm offset, abreast⟩
    refine adds.bind fun known known' alike => ?_
    refine (Lockstep.ask rfl (fun _ => rfl) fun _ => rfl).bind fun _ _ _ => .pure ?_
    rw [alike.records, alike.offset]

end ApkArchive.Signing

import ApkArchive.Proofs.Alignment.Check
import ApkArchive.Proofs.Signing.Idempotent
import ApkArchive.Proofs.Signing.Limits
import ApkArchive.Proofs.Zip.Blame

/-!
# Which archives are rejected

A check and a run that signs nothing and aligns nothing both visit the entries in file order and
stop at the first one that is not located. So they accept the same archives, as long as the offsets
of the output fit into their fields, and blame the same record of any other one; the run names the
record by its number in the directory, too.

    check = error (fault at offset) ↔ run = error (fault of record number + 1 at offset)
-/

namespace ApkArchive

open ApkArchive.Alignment (check Placement placementOf)

/-! ### The check -/

/-- The first failure of a sequence of computations is that of the sequence. -/
theorem mapM_eq_error_of_split {f : α → Except ε β} {front back : List α} {a : α} {e : ε}
    (before : ∀ b ∈ front, ∃ result, f b = .ok result) (failed : f a = .error e) :
    (front ++ a :: back).mapM f = .error e := by
  induction front with
  | nil =>
    rw [List.nil_append, List.mapM_cons, failed]
    rfl
  | cons first rest ih =>
    obtain ⟨result, here⟩ := before first (List.mem_cons_self ..)
    have later := ih fun b mem => before b (List.mem_cons_of_mem _ mem)
    rw [List.cons_append, List.mapM_cons, here]
    show ((rest ++ a :: back).mapM f >>= fun results => pure (result :: results)) = .error e
    rw [later]
    rfl

theorem exists_mapM_eq_ok {f : α → Except ε β} {l : List α}
    (all : ∀ a ∈ l, ∃ result, f a = .ok result) : ∃ results, l.mapM f = .ok results := by
  induction l with
  | nil => exact ⟨[], rfl⟩
  | cons first rest ih =>
    obtain ⟨result, here⟩ := all first (List.mem_cons_self ..)
    obtain ⟨results, later⟩ := ih fun a mem => all a (List.mem_cons_of_mem _ mem)
    refine ⟨result :: results, ?_⟩
    rw [List.mapM_cons]
    exact bind_eq_ok_iff.2 ⟨result, here, bind_eq_ok_iff.2 ⟨results, later, rfl⟩⟩

namespace Alignment

variable {input : View} {sections : Sections} {records : List DirectoryRecord} {entries : View}

/-- A check of an archive places one entry after the other. -/
theorem check_eq (archive : input.IsArchive sections records entries) (a : UInt16) :
    check input a = (Directory.inFileOrder records).mapM fun (record, _) =>
      placementOf { default := a } entries record := by
  obtain ⟨directory, read, parsed⟩ := archive.parsed
  unfold check placements
  rw [archive.located]
  show (sections.readDirectory input >>= _) = _
  rw [read]
  show (Directory.parse _ _ directory >>= _) = _
  rw [parsed]
  show (input.slice 0 sections.entriesSize >>= _) = _
  rw [archive.sliced]
  rfl

theorem exists_placementOf_iff {policy : Policy} {record : DirectoryRecord} :
    (∃ placement, placementOf policy entries record = .ok placement) ↔
      Located entries record := by
  constructor
  · rintro ⟨placement, placed⟩
    obtain ⟨found, located, -⟩ := placementOf_eq_ok placed
    exact ⟨found, located⟩
  · rintro ⟨found, located⟩
    unfold placementOf
    rw [located]
    exact ⟨_, rfl⟩

/-- A check succeeds exactly if every entry is located. -/
theorem exists_check_iff (archive : input.IsArchive sections records entries) (a : UInt16) :
    (∃ placements, check input a = .ok placements) ↔
      ∀ record ∈ records, Located entries record := by
  rw [check_eq archive]
  constructor
  · rintro ⟨placements, placed⟩ record mem
    obtain ⟨number, mem⟩ := Directory.mem_iff_exists_mem_inFileOrder.1 mem
    obtain ⟨placement, -, here⟩ := exists_result_of_mapM placed mem
    exact exists_placementOf_iff.1 ⟨placement, here⟩
  · intro all
    apply exists_mapM_eq_ok
    rintro ⟨record, number⟩ mem
    exact exists_placementOf_iff.2
      (all record (Directory.mem_iff_exists_mem_inFileOrder.2 ⟨number, mem⟩))

theorem check_of_blamed (archive : input.IsArchive sections records entries) {number : Nat}
    {record : DirectoryRecord} {fault : Fault}
    (blamed : Blamed records entries number record fault) (a : UInt16) :
    check input a = .error (.faultAt record.localOffset.toNat fault) := by
  obtain ⟨front, back, order, before⟩ := blamed.exists_split
  rw [check_eq archive, order]
  refine mapM_eq_error_of_split ?_ ?_
  · intro entry mem
    exact exists_placementOf_iff.2 (before entry mem)
  · show placementOf _ entries record = _
    unfold placementOf
    rw [blamed.fails]
    rfl

/-- With alignment off, nothing is aligned. -/
theorem Policy.plan_of_off {policy : Policy} (off : policy.default = 0) (record : LocalRecord)
    (offset : Nat) : policy.plan record offset = .unchanged := by
  unfold plan alignmentFor
  rw [if_pos (by simp [off])]

end Alignment

/-! ### Kept records -/

namespace Signing

/-- What was kept of a directory is no larger than the directory. -/
theorem size_kept_le (pieces : List Piece) :
    Directory.size ((pieces.filter Piece.isKept).map Piece.moved) ≤
      Directory.size (pieces.map Piece.record) := by
  induction pieces with
  | nil => exact Nat.le_refl _
  | cons piece rest ih =>
    rw [List.filter_cons]
    split
    · exact Nat.add_le_add_left ih piece.record.size
    · exact Nat.le_trans ih (Nat.le_add_left _ piece.record.size)

theorem Sweep.records_fit {engine : Engine σ} {config : Config} {entries : View}
    {records : List DirectoryRecord} {s s' : Session σ} {sweep : Sweep}
    (run : sweepEntries engine config entries records s = .ok sweep s') :
    Directory.size sweep.records ≤ Directory.size records ∧
      sweep.records.length ≤ records.length := by
  obtain ⟨pieces, covered, order, -, -, -, -, fates⟩ := sweepEntries_eq_ok run
  obtain ⟨listed, -, rfl, kept⟩ := exists_directory_order order
  rw [kept sweep (keptSoFar_of_fates fates)]
  refine ⟨size_kept_le listed, ?_⟩
  rw [List.length_map, List.length_map]
  exact List.length_filter_le _ _

/-! ### The run -/

/-- The sink of the output takes everything, and has taken so many bytes. -/
structure Ready (count : Nat) (s : Session σ) : Prop where
  isOpen : s.output.Open
  counts : s.output.bytes.length = count

/-- The error blames a record and names its number in the directory. -/
def Blames (records : List DirectoryRecord) (entries : View) (error : Error) : Prop :=
  ∃ number record fault, Blamed records entries number record fault ∧
    error = .format fault ⟨some (number + 1), some record.localOffset.toNat⟩

/-- A run fails for a record that it blames, or it has written more than an offset can say. -/
def Rejects (records : List DirectoryRecord) (entries : View) (error : Error) (s : Session σ) :
    Prop :=
  Blames records entries error ∨ UInt32.size ≤ s.output.bytes.length

open Run

section Rules

variable {E : Error → Session σ → Prop}

/-- A part that goes through whatever was written before, and always writes so many bytes. -/
theorem ensures_completes_bind {x : Run σ α} {f : α → Run σ β} {a : α} {count size : Nat}
    {Q : β → Session σ → Prop}
    (completes : ∀ front, ∃ written, written.length = size ∧ Completes x front a written)
    (rest : Ensures (Ready (count + size)) (f a) Q E) : Ensures (Ready count) (x >>= f) Q E := by
  have first : Ensures (Ready count) x (fun b s => b = a ∧ Ready (count + size) s) E := by
    intro s ready
    obtain ⟨written, length, completes⟩ := completes s.output.bytes
    obtain ⟨s', run, isOpen, wrote⟩ := completes ready.isOpen rfl
    rw [run]
    exact ⟨rfl, isOpen, by rw [wrote, List.length_append, ready.counts, length]⟩
  refine first.bind fun b => ?_
  rintro s ⟨rfl, ready⟩
  exact rest ready

/-- A part that goes through and writes nothing. -/
theorem ensures_silent_bind {x : Run σ α} {f : α → Run σ β} {a : α} {count : Nat}
    {Q : β → Session σ → Prop} (completes : ∀ front, Completes x front a [])
    (rest : Ensures (Ready count) (f a) Q E) : Ensures (Ready count) (x >>= f) Q E :=
  ensures_completes_bind (fun front => ⟨[], rfl, completes front⟩) rest

theorem ensures_note_bind (notice : Notice) {f : Unit → Run σ β} {count : Nat}
    {Q : β → Session σ → Prop} (rest : Ensures (Ready count) (f ()) Q E) :
    Ensures (Ready count) (note notice >>= f) Q E :=
  ensures_silent_bind (fun _ => Completes.note notice) rest

theorem ensures_ask_bind {question : Ask σ α} {call : Option α → Call} {a : α} {f : α → Run σ β}
    {count : Nat} {Q : β → Session σ → Prop} (always : Ask.Always question a)
    (rest : Ensures (Ready count) (f a) Q E) :
    Ensures (Ready count) (ask question call >>= f) Q E :=
  ensures_silent_bind (fun _ => Completes.ask always) rest

theorem ensures_emit_bind {action : Emit α} {a : α} {written : Bytes} {f : α → Run σ β}
    {count : Nat} {Q : β → Session σ → Prop} (delivers : Sink.Delivers action a written)
    (rest : Ensures (Ready (count + written.length)) (f a) Q E) :
    Ensures (Ready count) (emit action >>= f) Q E :=
  ensures_completes_bind (fun _ => ⟨written, rfl, Completes.emit delivers⟩) rest

end Rules

variable {records : List DirectoryRecord} {entries : View} {config : Config} {bytes : Bytes}

/-- What lies between two places of the input is copied if there is anything. -/
theorem ensures_copyGap (shows : entries.Shows bytes) {covered gap count : Nat} {notice : Notice}
    {next : Run σ α} {Q : α → Session σ → Prop} {E : Error → Session σ → Prop}
    (inside : 0 < gap → covered + gap ≤ entries.size)
    (rest : Ensures (Ready (count + gap)) next Q E) :
    Ensures (Ready count) (if 0 < gap then do
        note notice
        emit (entries.feed covered gap)
        next
      else next) Q E := by
  refine .ite (fun some_left => ?_) fun none => ?_
  · have inside := inside some_left
    have fed := entries.delivers_feed covered gap inside
      (shows.holds_range (by rw [← shows.size]; exact inside))
    refine ensures_note_bind notice (ensures_emit_bind fed ?_)
    rwa [View.length_bytes]
  · rwa [Nat.eq_zero_of_not_pos none] at rest

theorem ensures_copyEntry (shows : entries.Shows bytes) (off : config.alignment.default = 0)
    {record : DirectoryRecord} (number : Nat) {found : LocalRecord}
    (located : LocalRecord.locate entries record entries.size = .ok found) (offset : Nat) :
    Ensures (Ready offset)
      (copyEntry config entries record number found offset : Run σ (Fate × Nat))
      (fun settled s => Ready (offset + settled.2) s) (Rejects records entries) := by
  obtain ⟨-, -, inside⟩ := bounds_of_located located
  have size := shows.size
  have copied := LocalRecord.delivers_copy inside (shows.holds_range (by
    rw [← size]
    exact inside))
  unfold copyEntry
  refine .ofExcept_bind ?_ fun word _ => ?_
  · intro error s failed ready
    exact .inr (ready.counts ▸ fieldOffset_eq_error failed)
  dsimp only
  rw [Alignment.Policy.plan_of_off off]
  refine ensures_emit_bind copied (ensures_note_bind _ ((Ensures.pure _).post ?_))
  rintro _ s ⟨rfl, ready⟩
  rwa [View.length_bytes] at ready

namespace PassThrough

variable {strip : Bool}

/-- The engine keeps an entry or skips it, and looks at none. -/
theorem always_inputEntry (strip : Bool) (name : String) :
    ∃ decision, Ask.Always ((engine strip).inputEntry name) decision ∧
      decision.inspect = none ∧ decision.disposition ≠ .replace := by
  cases stays : keeps strip name with
  | true =>
    rw [inputEntry_of_keeps stays]
    exact ⟨_, Ask.always_pure _, rfl, nofun⟩
  | false =>
    rw [inputEntry_of_not_keeps stays]
    exact ⟨_, Ask.always_pure _, rfl, nofun⟩

theorem ensures_settleEntry (shows : entries.Shows bytes) (off : config.alignment.default = 0)
    {record : DirectoryRecord} (number : Nat) {found : LocalRecord}
    (located : LocalRecord.locate entries record entries.size = .ok found) (offset : Nat) :
    Ensures (Ready offset) (settleEntry (engine strip) config entries record number found offset)
      (fun settled s => Ready (offset + settled.2) s) (Rejects records entries) := by
  obtain ⟨decision, always, blind, settled⟩ := always_inputEntry strip record.name
  have dropped (fate : Fate) : Ensures (Ready offset) (pure (fate, 0) : Run Bool (Fate × Nat))
      (fun settled s => Ready (offset + settled.2) s) (Rejects records entries) :=
    (Ensures.pure _).post fun _ _ post => post.1 ▸ post.2
  unfold settleEntry
  refine ensures_ask_bind always (ensures_silent_bind (fun _ => Completes.note? _) ?_)
  rw [blind]
  refine ensures_silent_bind (a := ()) (fun front => Completes.pure front ()) ?_
  cases disposition : decision.disposition with
  | replace => exact absurd disposition settled
  | skip => exact ensures_note_bind _ (dropped _)
  | keep =>
    refine ensures_ask_bind (Ask.always_pure none) ?_
    refine ensures_silent_bind (a := ()) (fun front => Completes.pure front ()) ?_
    exact ensures_copyEntry shows off number located offset

/-- What is known while the entries are swept: the output is counted, and the entries that come
before are located. -/
def Sweeping (records : List DirectoryRecord) (entries : View)
    (todo : List (DirectoryRecord × Nat)) (sweep : Sweep) (s : Session Bool) : Prop :=
  Ready sweep.offset s ∧ ∃ front, Directory.inFileOrder records = front ++ todo ∧
    ∀ entry ∈ front, Located entries entry.1

/-- The first entry that is not located is blamed. -/
theorem ensures_sweepEntry (shows : entries.Shows bytes) (off : config.alignment.default = 0)
    (entry : DirectoryRecord × Nat) (todo : List (DirectoryRecord × Nat)) (sweep : Sweep) :
    Ensures (Sweeping records entries (entry :: todo) sweep)
      (sweepEntry (engine strip) config entries sweep entry)
      (Sweeping records entries todo) (Rejects records entries) := by
  rintro s ⟨ready, front, order, before⟩
  obtain ⟨record, number⟩ := entry
  have step : Ensures (Ready sweep.offset)
      (sweepEntry (engine strip) config entries sweep (record, number))
      (fun sweep' s => Ready sweep'.offset s ∧ Located entries record)
      (Rejects records entries) := by
    unfold sweepEntry
    refine .ofExcept_bind ?_ fun found mapped => ?_
    · intro error s mapped _
      obtain ⟨error', failed, rfl⟩ : ∃ error', LocalRecord.locate entries record entries.size =
          .error error' ∧ error = error'.withRecord (number + 1) := by
        cases result : LocalRecord.locate entries record entries.size with
        | ok found =>
          rw [result] at mapped
          cases mapped
        | error error' =>
          rw [result] at mapped
          cases mapped
          exact ⟨error', rfl, rfl⟩
      obtain ⟨fault, rfl, blamed⟩ := blamed_of_split shows order before failed
      exact .inl ⟨number, record, fault, blamed, rfl⟩
    · have located := mapError_eq_ok_iff.1 mapped
      obtain ⟨-, less, inside⟩ := bounds_of_located located
      refine ensures_copyGap shows (by omega) ?_
      refine (ensures_settleEntry shows off number located _).bind fun settled => ?_
      refine (Ensures.pure _).post ?_
      rintro _ s ⟨rfl, ready⟩
      exact ⟨ready, found, located⟩
  refine (step.post ?_) ready
  rintro sweep' s ⟨ready, located⟩
  refine ⟨ready, front ++ [(record, number)], ?_, ?_⟩
  · rw [order, List.append_assoc, List.singleton_append]
  · intro entry mem
    rcases List.mem_append.1 mem with earlier | last
    · exact before entry earlier
    · rw [List.mem_singleton.1 last]
      exact located

theorem ensures_sweepEntries (shows : entries.Shows bytes) (off : config.alignment.default = 0) :
    Ensures (Ready 0) (sweepEntries (engine strip) config entries records)
      (fun sweep s => Ready sweep.offset s ∧ ∀ record ∈ records, Located entries record)
      (Rejects records entries) := by
  have swept : Ensures (Sweeping records entries (Directory.inFileOrder records) {})
      ((Directory.inFileOrder records).foldlM (sweepEntry (engine strip) config entries) {})
      (Sweeping records entries []) (Rejects records entries) :=
    Ensures.foldlM (fun entry rest sweep => ensures_sweepEntry shows off entry rest sweep) _ _
  intro s ready
  have all : Ensures (Sweeping records entries (Directory.inFileOrder records) {})
      (sweepEntries (engine strip) config entries records)
      (fun sweep s => Ready sweep.offset s ∧ ∀ record ∈ records, Located entries record)
      (Rejects records entries) := by
    unfold sweepEntries
    refine swept.bind fun sweep => ?_
    rintro s ⟨ready, front, order, before⟩
    have located : ∀ record ∈ records, Located entries record := by
      intro record mem
      obtain ⟨number, mem⟩ := Directory.mem_iff_exists_mem_inFileOrder.1 mem
      rw [order, List.append_nil] at mem
      exact before _ mem
    refine (ensures_copyGap shows (by omega) ((Ensures.pure _).post ?_)) ready
    rintro _ s ⟨rfl, ready⟩
    exact ⟨ready, located⟩
  exact all ⟨ready, [], rfl, nofun⟩

theorem ensures_writeDirectory_of_fits (any : config.sizeMultiple.getD 1 ≤ 1)
    {inputEnd : EndRecord} {kept : List DirectoryRecord} (offset : Nat)
    (sizeFits : Directory.size kept ≤ View.maxBufferSize) (countFits : kept.length < 65536) :
    Ensures (Ready offset) (writeDirectory (engine strip) config inputEnd kept offset)
      (fun _ s => ∃ count, Ready count s) (Rejects records entries) := by
  rintro s ⟨isOpen, rfl⟩
  by_cases offsetFits : s.output.bytes.length < UInt32.size
  · have one : max 1 (config.sizeMultiple.getD 1) = 1 := Nat.max_eq_left any
    have completes : Completes
        (writeDirectory (engine strip) config inputEnd kept s.output.bytes.length)
        s.output.bytes _ _ :=
      completes_writeDirectory (steady strip).predictable sizeFits countFits offsetFits
        (by rw [one, Nat.mod_one])
    obtain ⟨s', run, isOpen', -⟩ := completes isOpen rfl
    rw [run]
    exact ⟨_, isOpen', rfl⟩
  · have large : ¬ Fits kept s.output.bytes.length := fun fits => offsetFits fits.offset
    obtain ⟨fault, run⟩ : ∃ fault, writeDirectory (engine strip) config inputEnd kept
        s.output.bytes.length s = .error (.fault fault) s := writeDirectory_of_not_fits s large
    rw [run]
    exact .inr (Nat.le_of_not_lt offsetFits)

/-- Nothing is written before the entries of an archive are swept, and no entry is added. -/
theorem ensures_writeEntries {input : View} {sections : Sections} {R : Sweep → Prop}
    {E : Error → Session Bool → Prop} (archive : input.IsArchive sections records entries)
    (deflate : Bytes → Bytes)
    (swept : Ensures (Ready 0) (sweepEntries (engine strip) config entries records)
      (fun sweep s => Ready sweep.offset s ∧ R sweep) E) :
    Ensures (Ready 0) (writeEntries (engine strip) config input deflate)
      (fun written s => Ready written.offset s ∧ written.inputEnd = sections.endRecord ∧
        written.added = [] ∧ R written.sweep) E := by
  obtain ⟨directory, read, parsed⟩ := archive.parsed
  unfold writeEntries
  refine ensures_position_bind fun offset => .guard ?_ fun _ => ?_
  · rintro s filled ⟨ready, position⟩
    rw [Sink.position_eq, ready.counts] at position
    exact absurd position.symm filled
  refine .pre (P := Ready 0) ?_ fun s pre => pre.1
  refine ensures_silent_bind (fun _ => Completes.ofExcept archive.located) ?_
  refine ensures_silent_bind (fun _ => Completes.note? _) ?_
  refine ensures_silent_bind (fun _ => Completes.ofExcept read) ?_
  refine ensures_silent_bind (fun _ => Completes.ofExcept parsed) ?_
  refine ensures_note_bind _ (ensures_ask_bind ((steady strip).inputBlock _) ?_)
  refine ensures_silent_bind (fun _ => Completes.ofExcept archive.sliced) ?_
  refine swept.bind fun sweep => .of_and fun known => ?_
  have adds (front : Bytes) : Completes
      (addEntries (engine strip) deflate sweep.records sweep.offset) front ([], sweep.offset) [] :=
    (Completes.ask (Ask.always_pure none)).andThen (.pure _ _)
  refine ensures_silent_bind adds ?_
  refine (Ensures.pure _).post ?_
  rintro _ s ⟨rfl, ready⟩
  exact ⟨ready, rfl, rfl, known⟩

/-- A run that goes through has located every entry. -/
theorem ensures_sign {input : View} {sections : Sections} (off : config.alignment.default = 0)
    (any : config.sizeMultiple.getD 1 ≤ 1) (archive : input.IsArchive sections records entries)
    (deflate : Bytes → Bytes) :
    Ensures (Ready 0) (sign (engine strip) config input deflate)
      (fun _ _ => ∀ record ∈ records, Located entries record) (Rejects records entries) := by
  obtain ⟨sizeFits, countFits⟩ := archive.fits
  have swept : Ensures (Ready 0) (sweepEntries (engine strip) config entries records)
      (fun sweep s => Ready sweep.offset s ∧ (∀ record ∈ records, Located entries record) ∧
        Directory.size sweep.records ≤ Directory.size records ∧
          sweep.records.length ≤ records.length) (Rejects records entries) :=
    ((ensures_sweepEntries archive.shows_entries off).also fun _ _ _ _ run =>
      Sweep.records_fit run).post fun _ _ post => ⟨post.1.1, post.1.2, post.2⟩
  rw [sign_eq]
  refine (ensures_writeEntries archive deflate swept).bind fun written => .of_and ?_
  rintro ⟨-, none, located, smaller, fewer⟩
  unfold conclude
  -- Nothing is added, so the new directory is what was kept of the old one.
  rw [none, List.append_nil]
  have closes : Ensures (Ready written.offset)
      (writeDirectory (engine strip) config written.inputEnd written.sweep.records written.offset)
      (fun _ s => ∃ count, Ready count s) (Rejects records entries) :=
    ensures_writeDirectory_of_fits any written.offset (Nat.le_trans smaller sizeFits)
      (Nat.lt_of_le_of_lt fewer countFits)
  refine closes.bind fun blockSize => .of_exists fun count => ?_
  refine ensures_position_bind fun size => .pre (P := Ready count) ?_ fun s pre => pre.1
  refine ensures_ask_bind ((steady strip).finished) (ensures_note_bind _ ?_)
  exact (Ensures.pure _).post fun _ _ _ => located

/-- A run that does not locate the entry that stands first in the archive writes nothing. -/
theorem ensures_sign_of_not_located {input : View} {sections : Sections}
    {entry : DirectoryRecord × Nat} {rest : List (DirectoryRecord × Nat)}
    (archive : input.IsArchive sections records entries)
    (order : Directory.inFileOrder records = entry :: rest) (missing : ¬ Located entries entry.1)
    (deflate : Bytes → Bytes) :
    Ensures (Ready 0) (sign (engine strip) config input deflate) (fun _ _ => False)
      (fun _ s => Ready 0 s) := by
  have swept : Ensures (Ready 0) (sweepEntries (engine strip) config entries records)
      (fun sweep s => Ready sweep.offset s ∧ False) (fun _ s => Ready 0 s) := by
    unfold sweepEntries
    rw [order, List.foldlM_cons, bind_assoc]
    unfold sweepEntry
    rw [bind_assoc]
    refine .ofExcept_bind (fun _ _ _ ready => ready) fun found mapped => ?_
    exact absurd ⟨found, mapError_eq_ok_iff.1 mapped⟩ missing
  rw [sign_eq]
  refine (ensures_writeEntries archive deflate swept).bind fun written => .of_and ?_
  rintro ⟨-, -, never⟩
  exact never.elim

/-- A check and a run that signs and aligns nothing accept the same archives, namely those in which
every entry is located. Of any other archive they blame the same record for the same fault, the run
by its number in the directory; it is the record with the least offset among those whose entries are
not located, and the first one of these in the directory. -/
theorem check_and_run_blame_alike {input : View} {sections : Sections}
    {deflate : Bytes → Bytes} {start : Bool} {sink : Sink}
    (archive : input.IsArchive sections records entries) (off : config.alignment.default = 0)
    (any : config.sizeMultiple.getD 1 ≤ 1) (isOpen : sink.Open) (empty : sink.bytes = [])
    {result : EStateM.Result Error (Session Bool) Summary}
    (run : (sign (engine strip) config input deflate).run { engine := start, output := sink } =
      result)
    (short : (ending result).output.bytes.length < UInt32.size) :
    ((∃ summary final, result = .ok summary final) ↔
        ∀ record ∈ records, Located entries record) ∧
      (∀ a, (∃ placements, check input a = .ok placements) ↔
        ∀ record ∈ records, Located entries record) ∧
      ∀ error final, result = .error error final →
        ∃ number record fault, Blamed records entries number record fault ∧
          error = .format fault ⟨some (number + 1), some record.localOffset.toNat⟩ ∧
          ∀ a, check input a = .error (.format fault ⟨none, some record.localOffset.toNat⟩) := by
  have pre : Ready 0 ({ engine := start, output := sink } : Session Bool) :=
    ⟨isOpen, List.length_eq_zero_iff.2 empty⟩
  have blames (error : Error) (final : Session Bool) (failed : result = .error error final) :
      Blames records entries error := by
    subst failed
    rcases (ensures_sign off any archive deflate).error pre run with blames | large
    · exact blames
    · exact absurd short (Nat.not_lt.2 large)
  refine ⟨⟨?_, ?_⟩, fun a => Alignment.exists_check_iff archive a, ?_⟩
  · rintro ⟨summary, final, rfl⟩
    exact (ensures_sign off any archive deflate).ok pre run
  · intro all
    cases result with
    | ok summary final => exact ⟨summary, final, rfl⟩
    | error error final =>
      obtain ⟨number, record, fault, blamed, -⟩ := blames error final rfl
      obtain ⟨found, located⟩ := all record (List.mem_of_getElem? blamed.listed)
      exact absurd (blamed.fails.symm.trans located) nofun
  · intro error final failed
    obtain ⟨number, record, fault, blamed, rfl⟩ := blames error final failed
    exact ⟨number, record, fault, blamed, rfl, Alignment.check_of_blamed archive blamed⟩

/-! ### Forged entries -/

/-- A record whose checksum is not that of the local header. -/
def forgedAt (letter : UInt8) (offset : UInt32) : DirectoryRecord :=
  { Sample.recordAt letter offset with crc32 := 0 }

/-- Both entries are forged, and listed against their order in the file. -/
def forgery : Bytes := Sample.listing [forgedAt 0x62 41, forgedAt 0x61 1]

theorem not_located_forgedAt {entries : View} (shows : entries.Shows Sample.twoEntries) :
    ¬ Located entries (forgedAt 0x61 1) ∧ ¬ Located entries (forgedAt 0x62 41) := by
  have fail : (LocalRecord.locate (View.ofBytes Sample.twoEntries) (forgedAt 0x61 1) 75).isOk =
        false ∧
      (LocalRecord.locate (View.ofBytes Sample.twoEntries) (forgedAt 0x62 41) 75).isOk = false := by
    decide +kernel
  rw [← Sample.locate_of_shows shows, ← Sample.locate_of_shows shows] at fail
  refine ⟨?_, ?_⟩
  all_goals
    rintro ⟨found, located⟩
    rw [located] at fail
    simp [Except.isOk, Except.toBool] at fail

/-- Neither entry is located. The one to blame comes first in the file, and second in the
directory. -/
theorem forged_record_is_blamed :
    ∃ fault final,
      rewrite false Sample.plain forgery = .error (.format fault ⟨some 2, some 1⟩) final ∧
      ∀ a, check (View.ofBytes forgery) a = .error (.format fault ⟨none, some 1⟩) := by
  obtain ⟨sections, entries, archive, shows, -⟩ : ∃ sections entries,
      (View.ofBytes forgery).IsArchive sections [forgedAt 0x62 41, forgedAt 0x61 1] entries ∧
        entries.Shows Sample.twoEntries ∧ _ :=
    Sample.exists_isArchive_listing _ (by decide +kernel) rfl (by decide +kernel)
  have silent : Ensures (Ready 0)
      (sign (engine false) Sample.plain (View.ofBytes forgery) Deflate.deflate)
      (fun _ _ => False) (fun _ s => Ready 0 s) :=
    ensures_sign_of_not_located archive (Directory.inFileOrder_pair (by decide))
      (not_located_forgedAt shows).1 Deflate.deflate
  have pre : Ready 0 ({ engine := false } : Session Bool) := ⟨fun _ _ _ => rfl, rfl⟩
  cases result : rewrite false Sample.plain forgery with
  | ok summary final => exact (silent.ok pre result).elim
  | error error final =>
    have off : Sample.plain.alignment.default = 0 := rfl
    have any : Sample.plain.sizeMultiple.getD 1 ≤ 1 := Nat.le_refl 1
    have short : final.output.bytes.length < UInt32.size := by
      rw [(silent.error pre result).counts]
      decide
    obtain ⟨-, -, blames⟩ := check_and_run_blame_alike archive off any (fun _ _ _ => rfl) rfl
      result short
    obtain ⟨number, record, fault, blamed, rfl, checked⟩ := blames error final rfl
    obtain ⟨rfl, rfl⟩ : number = 1 ∧ record = forgedAt 0x61 1 := by
      have listed := blamed.listed
      match number with
      | 0 =>
        -- The other record is not located either, and points to a lower offset.
        cases Option.some.inj listed
        rcases blamed.first 1 _ rfl (not_located_forgedAt shows).1 with less | ⟨same, -⟩
        · exact absurd less (by decide)
        · exact absurd same (by decide)
      | 1 => exact ⟨rfl, (Option.some.inj listed).symm⟩
      | number + 2 => cases listed
    exact ⟨fault, final, rfl, checked⟩

end PassThrough
end Signing
end ApkArchive

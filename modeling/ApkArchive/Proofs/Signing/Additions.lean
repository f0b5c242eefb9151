import ApkArchive.Proofs.Signing.Sweep
import ApkArchive.Proofs.Zip.Directory

/-!
# The entries that the engine adds

New entries are appended one after the other. Each one becomes a layout of its new directory
record, at the offset that the record states, and no name occurs twice in the output.
-/

namespace ApkArchive.Signing

open LocalRecord (Layout emitNew_eq_ok newDeflated_eq_ok)
open Directory (contains_insert_eq_false_iff)

/-- What became of a new entry: its record, and its local record in the output. -/
structure Addition where
  entry : NewEntry
  record : DirectoryRecord
  layout : Layout record

/-- A new entry was written at an offset of the output, and its record describes it. -/
structure Addition.Sound (deflate : Bytes → Bytes) (offset : Nat) (addition : Addition) : Prop where
  offsetFits : offset < UInt32.size
  place : addition.record.localOffset = UInt32.ofNat offset
  name : addition.record.nameBytes = LossyUtf8.encode addition.entry.name
  method : addition.record.method = .deflate
  crc32 : addition.record.crc32 = Crc32.checksum addition.entry.data
  size : addition.record.uncompressedSize.toNat = addition.entry.data.length
  data : addition.layout.data = deflate addition.entry.data

theorem Addition.Sound.record_name {deflate : Bytes → Bytes} {offset : Nat} {addition : Addition}
    (sound : addition.Sound deflate offset) : addition.record.name = addition.entry.name := by
  rw [DirectoryRecord.name, sound.name, LossyUtf8.decode_encode]

/-- Both records of a new entry were made from its name, its data and a timestamp. -/
structure Addition.Stamped (deflate : Bytes → Bytes) (stamp : Timestamp) (addition : Addition) :
    Prop where
  made : DirectoryRecord.newDeflated addition.entry.name stamp
    (Crc32.checksum addition.entry.data) (UInt32.ofNat (deflate addition.entry.data).length)
    (UInt32.ofNat addition.entry.data.length) addition.record.localOffset = .ok addition.record
  isNew : addition.layout.IsNew stamp (Crc32.checksum addition.entry.data)
    (UInt32.ofNat addition.entry.data.length) (deflate addition.entry.data)

/-- New entries that follow each other in the output, the first one at `offset`. -/
inductive Appended (deflate : Bytes → Bytes) : (offset : Nat) → List Addition → Prop
  | nil {offset : Nat} : Appended deflate offset []
  | cons {offset : Nat} {addition : Addition} {rest : List Addition}
      (sound : addition.Sound deflate offset)
      (appended : Appended deflate (offset + addition.layout.bytes.length) rest) :
      Appended deflate offset (addition :: rest)

theorem Appended.names {deflate : Bytes → Bytes} {offset : Nat} {additions : List Addition}
    (appended : Appended deflate offset additions) :
    Directory.names (additions.map Addition.record) =
      additions.map fun addition => addition.entry.name := by
  induction appended with
  | nil => rfl
  | cons sound _ ih => exact congr (congrArg List.cons sound.record_name) ih

theorem Appended.exists_sound {deflate : Bytes → Bytes} {offset : Nat} {additions : List Addition}
    (appended : Appended deflate offset additions) {addition : Addition}
    (mem : addition ∈ additions) : ∃ place, addition.Sound deflate place := by
  induction appended with
  | nil => cases mem
  | cons sound _ ih =>
    rcases List.mem_cons.1 mem with rfl | later
    · exact ⟨_, sound⟩
    · exact ih later

/-- All bytes of some new entries. -/
def appendedBytes (additions : List Addition) : Bytes :=
  additions.flatMap fun addition => addition.layout.bytes

theorem Appended.place {deflate : Bytes → Bytes} {offset : Nat} {additions : List Addition}
    (appended : Appended deflate offset additions) {front back : List Addition}
    {addition : Addition} (split : additions = front ++ addition :: back) :
    addition.record.localOffset.toNat = offset + (appendedBytes front).length := by
  induction appended generalizing front with
  | nil => cases front <;> cases split
  | cons sound appended ih =>
    cases front with
    | nil =>
      cases split
      rw [sound.place]
      exact UInt32.toNat_ofNat_of_lt' sound.offsetFits
    | cons first front =>
      cases split
      rw [ih rfl, appendedBytes, appendedBytes, List.flatMap_cons, List.length_append,
        Nat.add_assoc]

open Run

variable {s s' : Session σ} {engine : Engine σ} {deflate : Bytes → Bytes} {stamp : Timestamp}

theorem addEntry_eq_ok {known known' : Additions} {entry : NewEntry}
    (run : addEntry engine deflate stamp known entry s = .ok known' s') :
    ∃ addition : Addition, addition.entry = entry ∧
      addition.Sound deflate known.offset ∧ addition.Stamped deflate stamp ∧
      Extends s s' addition.layout.bytes [] ∧ known.names.contains entry.name = false ∧
      known' = { records := addition.record :: known.records
                 names := known.names.insert entry.name
                 offset := known.offset + addition.layout.bytes.length } := by
  unfold addEntry at run
  dsimp only at run
  obtain ⟨fresh, run⟩ := run_guard_eq_ok run
  obtain ⟨sink, asked, ask, run⟩ := run_bind_eq_ok_iff.1 run
  obtain ⟨_, shown, shows, run⟩ := run_bind_eq_ok_iff.1 run
  have before : Extends s shown [] [] := (ask_extends ask).trans (show?_extends shows)
  obtain ⟨offset, field, run⟩ := run_ofExcept_eq_ok_iff.1 run
  obtain ⟨offsetFits, rfl⟩ := fieldOffset_eq_ok_iff.1 field
  obtain ⟨small, run⟩ := run_guard_eq_ok run
  obtain ⟨written, wrote, emitted, run⟩ := run_bind_eq_ok_iff.1 run
  obtain ⟨record, made, run⟩ := run_ofExcept_eq_ok_iff.1 run
  obtain ⟨_, _, noted, run⟩ := run_bind_eq_ok_iff.1 run
  obtain ⟨rfl, rfl⟩ := run_pure_eq_ok_iff.1 run
  obtain ⟨_, ran, extends_of⟩ := emit_eq_ok emitted
  obtain ⟨layout, data, isNew, bytes, rfl⟩ := emitNew_eq_ok ran made
  obtain ⟨name, place, method, crc32, size⟩ := newDeflated_eq_ok made
  refine ⟨⟨entry, record, layout⟩, rfl, ?_, ⟨?_, isNew⟩, ?_, Bool.eq_false_iff.2 fresh, rfl⟩
  · refine ⟨offsetFits, place, name, method, crc32, ?_, data⟩
    rw [size]
    exact UInt32.toNat_ofNat_of_lt' (Nat.lt_of_not_le small)
  · rw [place]
    exact made
  · exact before.after_silence ((extends_of _ bytes).before_silence (note_extends noted))

/-- The count grows by what is written for a new entry. So it stays the position of the output. -/
theorem addEntry_counts {known known' : Additions} {entry : NewEntry}
    (counts : known.offset = s.output.position)
    (run : addEntry engine deflate stamp known entry s = .ok known' s') :
    known'.offset = s'.output.position := by
  obtain ⟨addition, -, -, -, wrote, -, rfl⟩ := addEntry_eq_ok run
  rw [Sink.position_eq] at counts ⊢
  rw [wrote.length_output, counts]

theorem foldlM_addEntry_eq_ok {todo : List NewEntry} {known known' : Additions}
    (run : todo.foldlM (addEntry engine deflate stamp) known s = .ok known' s') :
    ∃ additions : List Addition, additions.map Addition.entry = todo ∧
      Appended deflate known.offset additions ∧
      (∀ addition ∈ additions, addition.Stamped deflate stamp) ∧
      Extends s s' (appendedBytes additions) [] ∧
      known'.records = (additions.map Addition.record).reverse ++ known.records ∧
      known'.offset = known.offset + (appendedBytes additions).length ∧
      (todo.map NewEntry.name).Nodup ∧
      ∀ entry ∈ todo, known.names.contains entry.name = false := by
  induction todo generalizing s known with
  | nil =>
    obtain ⟨rfl, rfl⟩ := run_pure_eq_ok_iff.1 run
    exact ⟨[], rfl, .nil, fun _ => nofun, Extends.refl s, rfl, rfl, List.nodup_nil, fun _ => nofun⟩
  | cons entry rest ih =>
    rw [List.foldlM_cons] at run
    obtain ⟨_, mid, step, steps⟩ := run_bind_eq_ok_iff.1 run
    obtain ⟨addition, rfl, sound, made, wrote, fresh, rfl⟩ := addEntry_eq_ok step
    obtain ⟨additions, rfl, appended, allMade, wrotes, records, counts, distinct, others⟩ :=
      ih steps
    -- The names of all later entries are looked up among this one, too.
    have apart := fun entry mem => contains_insert_eq_false_iff.1 (others entry mem)
    refine ⟨addition :: additions, rfl, .cons sound appended,
      List.forall_mem_cons.2 ⟨made, allMade⟩, wrote.trans wrotes, ?_, ?_, ?_, ?_⟩
    · rw [records, List.map_cons, List.reverse_cons, List.append_assoc, List.singleton_append]
    · rw [counts, appendedBytes, appendedBytes, List.flatMap_cons, List.length_append,
        Nat.add_assoc]
    · refine List.nodup_cons.2 ⟨?_, distinct⟩
      intro repeated
      obtain ⟨entry, mem, same⟩ := List.mem_map.1 repeated
      exact (apart entry mem).1 same.symm
    · intro entry mem
      rcases List.mem_cons.1 mem with rfl | later
      · exact fresh
      · exact (apart entry later).2

/-- The milestones of a run in which the engine supplied some entries or none. -/
def supplyCalls : Option (List NewEntry) → List Call
  | none => [.newEntries (some none)]
  | some entries => [.newEntries (some (some entries)), .newEntriesWritten]

/-- The timestamp of new entries: the latest one of the entries that were kept. -/
def newStamp (kept : List DirectoryRecord) : Timestamp :=
  (Timestamp.latest? (kept.map (·.modified))).getD .default

theorem addEntries_eq_ok {kept added : List DirectoryRecord} {offset offset' : Nat}
    (run : addEntries engine deflate kept offset s = .ok (added, offset') s') :
    ∃ (answer : Option (List NewEntry)) (additions : List Addition),
      additions.map Addition.entry = answer.getD [] ∧
      added = additions.map Addition.record ∧
      Appended deflate offset additions ∧
      (∀ addition ∈ additions, addition.Stamped deflate (newStamp kept)) ∧
      Extends s s' (appendedBytes additions) (supplyCalls answer) ∧
      offset' = offset + (appendedBytes additions).length ∧
      ((Directory.names kept).Nodup → (Directory.names (kept ++ added)).Nodup) := by
  unfold addEntries at run
  obtain ⟨answer, asked, ask, run⟩ := run_bind_eq_ok_iff.1 run
  have supplied := ask_extends ask
  cases answer with
  | none =>
    obtain ⟨same, rfl⟩ := run_pure_eq_ok_iff.1 run
    obtain ⟨rfl, rfl⟩ := Prod.mk.inj same
    refine ⟨none, [], rfl, rfl, .nil, fun _ => nofun, supplied, rfl, fun distinct => ?_⟩
    rwa [List.append_nil]
  | some entries =>
    obtain ⟨last, wrote, writes, run⟩ := run_bind_eq_ok_iff.1 run
    obtain ⟨_, _, done, run⟩ := run_bind_eq_ok_iff.1 run
    obtain ⟨same, rfl⟩ := run_pure_eq_ok_iff.1 run
    obtain ⟨rfl, rfl⟩ := Prod.mk.inj same
    obtain ⟨additions, rfl, appended, made, written, records, counts, fresh, others⟩ :=
      foldlM_addEntry_eq_ok writes
    refine ⟨some _, additions, rfl, ?_, appended, made, ?_, counts, ?_⟩
    · rw [records, List.append_nil, List.reverse_reverse]
    · have all := (supplied.trans written).trans (ask_extends done)
      rwa [List.append_nil] at all
    · intro distinct
      rw [records, List.append_nil, List.reverse_reverse, Directory.names, List.map_append]
      have names := appended.names
      rw [Directory.names] at names
      rw [List.map_map] at fresh
      -- An old name that comes again would have been among the names at the start.
      refine List.nodup_append.2 ⟨distinct, names ▸ fresh, ?_⟩
      intro name old new mem same
      rw [names, List.mem_map] at mem
      obtain ⟨addition, mem, rfl⟩ := mem
      have absent := others addition.entry (List.mem_map_of_mem mem)
      rw [Std.TreeSet.contains_ofList, List.contains_eq_mem, decide_eq_false_iff_not] at absent
      exact absent (same ▸ old)

/-- After all new entries the count still is the position of the output. -/
theorem addEntries_counts {kept added : List DirectoryRecord} {offset offset' : Nat}
    (counts : offset = s.output.position)
    (run : addEntries engine deflate kept offset s = .ok (added, offset') s') :
    offset' = s'.output.position := by
  unfold addEntries at run
  obtain ⟨answer, asked, ask, run⟩ := run_bind_eq_ok_iff.1 run
  have counts : offset = asked.output.position := counts.trans (ask_extends ask).position_eq.symm
  cases answer with
  | none =>
    obtain ⟨same, rfl⟩ := run_pure_eq_ok_iff.1 run
    cases same
    exact counts
  | some entries =>
    obtain ⟨last, wrote, writes, run⟩ := run_bind_eq_ok_iff.1 run
    obtain ⟨_, _, done, run⟩ := run_bind_eq_ok_iff.1 run
    obtain ⟨same, rfl⟩ := run_pure_eq_ok_iff.1 run
    cases same
    have counts : last.offset = wrote.output.position :=
      run_foldlM_keeps addEntry_counts counts writes
    exact counts.trans (ask_extends done).position_eq.symm

end ApkArchive.Signing

import ApkArchive.Proofs.Signing.Unchanged

/-!
# Entries that can be added

A new entry can be added if its name does not occur in the output and the lengths of its name, of
its contents and of their compressed form fit into the fields of a record. How much room its records
take is known beforehand, so a run that copies its input unchanged and adds entries after it goes
through if there is room for all of them.
-/

namespace ApkArchive

open LocalRecord (emitNew)

theorem Directory.size_append (records more : List DirectoryRecord) :
    size (records ++ more) = size records + size more := by
  induction records with
  | nil => exact (Nat.zero_add _).symm
  | cons record rest ih =>
    show record.size + size (rest ++ more) = record.size + size rest + size more
    rw [ih, Nat.add_assoc]

/-- A new record has neither extra field nor comment. -/
theorem DirectoryRecord.exists_newDeflated {name : String} (stamp : Timestamp)
    (crc32 compressedSize size offset : UInt32) (fits : (LossyUtf8.encode name).length < 65536) :
    ∃ record, newDeflated name stamp crc32 compressedSize size offset = .ok record ∧
      record.size = fixedSize + (LossyUtf8.encode name).length :=
  ⟨_, dif_pos fits, rfl⟩

theorem LocalRecord.delivers_emitNew {name : String} {compressed : Bytes} (stamp : Timestamp)
    (crc32 size : UInt32) (nameFits : (LossyUtf8.encode name).length < 65536)
    (dataFits : compressed.length < UInt32.size) :
    ∃ written : Bytes, written.length =
        LocalHeader.fixedSize + (LossyUtf8.encode name).length + compressed.length ∧
      Sink.Delivers (emitNew name stamp compressed crc32 size) written.length written := by
  let header := LocalHeader.newDeflated stamp crc32 (UInt32.ofNat compressed.length) size
    (UInt16.ofNat (LossyUtf8.encode name).length)
  have length : ((header.encode ++ LossyUtf8.encode name) ++ (compressed ++ [])).length =
      LocalHeader.fixedSize + (LossyUtf8.encode name).length + compressed.length := by
    simp only [List.length_append, LocalHeader.length_encode, List.length_nil, Nat.add_zero]
  refine ⟨(header.encode ++ LossyUtf8.encode name) ++ (compressed ++ []), length, ?_⟩
  rw [length]
  unfold emitNew
  dsimp only
  rw [if_neg (Nat.not_le.2 nameFits), if_neg (Nat.not_le.2 dataFits)]
  exact (Sink.delivers_write _).bind ((Sink.delivers_write _).bind (Sink.delivers_pure _))

namespace Signing

/-- The fields of a record have room for the lengths of a new entry. -/
structure NewEntry.Fits (deflate : Bytes → Bytes) (entry : NewEntry) : Prop where
  name : (LossyUtf8.encode entry.name).length < 65536
  contents : entry.data.length < UInt32.size
  data : (deflate entry.data).length < UInt32.size

/-- The size of the local record of a new entry. -/
def NewEntry.localSize (deflate : Bytes → Bytes) (entry : NewEntry) : Nat :=
  LocalHeader.fixedSize + (LossyUtf8.encode entry.name).length + (deflate entry.data).length

/-- The size of the directory record of a new entry. -/
def NewEntry.recordSize (entry : NewEntry) : Nat :=
  DirectoryRecord.fixedSize + (LossyUtf8.encode entry.name).length

/-- The sizes of some new entries, added up. -/
def NewEntry.total (size : NewEntry → Nat) (todo : List NewEntry) : Nat :=
  todo.foldr (fun entry n => size entry + n) 0

theorem NewEntry.total_cons (size : NewEntry → Nat) (entry : NewEntry) (rest : List NewEntry) :
    total size (entry :: rest) = size entry + total size rest := rfl

theorem NewEntry.total_le {size : NewEntry → Nat} {todo : List NewEntry} {bound : Nat}
    (le : ∀ entry ∈ todo, size entry ≤ bound) : total size todo ≤ todo.length * bound := by
  induction todo with
  | nil => exact Nat.zero_le _
  | cons entry rest ih =>
    have first := le entry (List.mem_cons_self ..)
    have others := ih fun next mem => le next (List.mem_cons_of_mem _ mem)
    rw [total_cons, List.length_cons, Nat.succ_mul]
    omega

open Run

variable {engine : Engine σ} {keeps : String → Prop} {additions : Option (List NewEntry)}
variable {request : Option BlockRequest} {config : Config} {deflate : Bytes → Bytes}

theorem completes_addEntry (steady : engine.Steady keeps additions request) (stamp : Timestamp)
    (front : Bytes) {known : Additions} {entry : NewEntry} (fits : entry.Fits deflate)
    (fresh : known.names.contains entry.name = false) (offsetFits : known.offset < UInt32.size) :
    ∃ record written, record.size = entry.recordSize ∧
      written.length = entry.localSize deflate ∧
      Completes (addEntry engine deflate stamp known entry) front
        { records := record :: known.records
          names := known.names.insert entry.name
          offset := known.offset + entry.localSize deflate } written := by
  obtain ⟨written, length, delivers⟩ := LocalRecord.delivers_emitNew stamp
    (Crc32.checksum entry.data) (UInt32.ofNat entry.data.length) fits.name fits.data
  obtain ⟨record, made, size⟩ := DirectoryRecord.exists_newDeflated stamp
    (Crc32.checksum entry.data) (UInt32.ofNat (deflate entry.data).length)
    (UInt32.ofNat entry.data.length) (UInt32.ofNat known.offset) fits.name
  refine ⟨record, written, size, length, ?_⟩
  have placed := fieldOffset_eq_ok_iff.2 ⟨offsetFits, rfl⟩
  unfold addEntry
  dsimp only
  refine Completes.guard (by rw [fresh]; exact Bool.false_ne_true) ?_
  refine (Completes.ask (steady.outputEntry _)).andThen ((Completes.pure _ ()).andThen ?_)
  refine (Completes.ofExcept placed).andThen ?_
  refine Completes.guard (Nat.not_le.2 fits.contents) ?_
  refine (Completes.emit delivers).bind_silent ?_
  refine (Completes.ofExcept made).andThen ((Completes.note _).andThen ?_)
  rw [length]
  exact .pure _ _

/-- The induction is on the entries that are left; `front` is what was written before them. -/
theorem completes_foldlM_addEntry (steady : engine.Steady keeps additions request)
    (stamp : Timestamp) {todo : List NewEntry} (fits : ∀ entry ∈ todo, entry.Fits deflate)
    (distinct : (todo.map NewEntry.name).Nodup) (known : Additions)
    (fresh : ∀ entry ∈ todo, known.names.contains entry.name = false) (front : Bytes)
    (room : known.offset + NewEntry.total (NewEntry.localSize deflate) todo < UInt32.size) :
    ∃ known' new written, known'.records = new.reverse ++ known.records ∧
      known'.offset = known.offset + NewEntry.total (NewEntry.localSize deflate) todo ∧
      new.length = todo.length ∧ Directory.size new = NewEntry.total NewEntry.recordSize todo ∧
      written.length = NewEntry.total (NewEntry.localSize deflate) todo ∧
      Completes (todo.foldlM (addEntry engine deflate stamp) known) front known' written := by
  induction todo generalizing known front with
  | nil => exact ⟨known, [], [], rfl, rfl, rfl, rfl, rfl, .pure _ _⟩
  | cons entry rest ih =>
    rw [NewEntry.total_cons] at room
    obtain ⟨other, distinct⟩ := List.nodup_cons.1 distinct
    obtain ⟨record, written, size, length, step⟩ := completes_addEntry steady stamp
      front (fits entry (List.mem_cons_self ..)) (fresh entry (List.mem_cons_self ..)) (by omega)
    obtain ⟨known', new, written', records, offset, count, sizes, lengths, steps⟩ := ih
      (fun next mem => fits next (List.mem_cons_of_mem _ mem)) distinct
      { records := record :: known.records
        names := known.names.insert entry.name
        offset := known.offset + entry.localSize deflate } (by
        intro next mem
        have absent := fresh next (List.mem_cons_of_mem _ mem)
        refine Directory.contains_insert_eq_false_iff.2 ⟨?_, absent⟩
        intro same
        exact other (List.mem_map.2 ⟨next, mem, same.symm⟩))
      (front ++ written) (by dsimp only; omega)
    refine ⟨known', record :: new, written ++ written', ?_, ?_, ?_, ?_, ?_, ?_⟩
    · rw [records, List.reverse_cons, List.append_assoc, List.singleton_append]
    · rw [offset, NewEntry.total_cons, Nat.add_assoc]
    · rw [List.length_cons, List.length_cons, count]
    · rw [NewEntry.total_cons, ← sizes, ← size]
      rfl
    · rw [List.length_append, NewEntry.total_cons, length, lengths]
    · rw [List.foldlM_cons]
      exact step.bind steps

theorem completes_addEntries {todo : List NewEntry}
    (steady : engine.Steady keeps (some todo) request) {kept : List DirectoryRecord}
    (fits : ∀ entry ∈ todo, entry.Fits deflate)
    (distinct : (Directory.names kept ++ todo.map NewEntry.name).Nodup) (front : Bytes)
    (offset : Nat)
    (room : offset + NewEntry.total (NewEntry.localSize deflate) todo < UInt32.size) :
    ∃ new written, new.length = todo.length ∧
      Directory.size new = NewEntry.total NewEntry.recordSize todo ∧
      written.length = NewEntry.total (NewEntry.localSize deflate) todo ∧
      Completes (addEntries engine deflate kept offset) front
        (new, offset + written.length) written := by
  obtain ⟨-, distinct, apart⟩ := List.nodup_append.1 distinct
  have fresh : ∀ entry ∈ todo,
      (Std.TreeSet.ofList (kept.map (·.name))).contains entry.name = false := by
    intro entry mem
    rw [Std.TreeSet.contains_ofList, List.contains_eq_mem, decide_eq_false_iff_not]
    intro old
    exact apart _ old _ (List.mem_map_of_mem mem) rfl
  obtain ⟨known', new, written, records, counted, count, sizes, lengths, steps⟩ :=
    completes_foldlM_addEntry steady ((Timestamp.latest? (kept.map (·.modified))).getD .default)
      fits distinct { names := .ofList (kept.map (·.name)), offset } fresh front room
  refine ⟨new, written, count, sizes, lengths, ?_⟩
  unfold addEntries
  refine (Completes.ask steady.newEntries).andThen (steps.bind_silent ?_)
  refine (Completes.ask steady.newEntriesWritten).andThen ?_
  rw [records, counted, lengths, List.append_nil, List.reverse_reverse]
  exact .pure _ _

/-- A run that adds entries to an archive in order goes through if there is room for them, and ends
in the end record for all entries. -/
theorem completes_sign_of_additions (config : Config) {todo : List NewEntry}
    (steady : engine.Steady keeps (some todo) request) {input entries : View} {sections : Sections}
    {records : List DirectoryRecord} (archive : input.IsArchive sections records entries)
    (held : entries.Holds 0 entries.size) (inOrder : InOrder config.alignment entries records)
    (named : ∀ record ∈ records, keeps record.name) (fits : ∀ entry ∈ todo, entry.Fits deflate)
    (distinct : (Directory.names records ++ todo.map NewEntry.name).Nodup)
    {count size offset : Nat} (count_eq : count = records.length + todo.length)
    (size_eq : size = Directory.size records + NewEntry.total NewEntry.recordSize todo)
    (offset_eq : offset = entries.size + NewEntry.total (NewEntry.localSize deflate) todo +
      (BlockRequest.orEmpty request).size)
    (countFits : count < 65536) (sizeFits : size ≤ View.maxBufferSize)
    (offsetFits : offset < UInt32.size) (anySize : config.sizeMultiple = none) :
    ∃ summary front, Completes (sign engine config input deflate) [] summary
      (front ++ (sections.endRecord.withDirectory (UInt16.ofNat count) (UInt32.ofNat size)
        (UInt32.ofNat offset)).encode) := by
  have whole : (entries.bytes 0 entries.size).length = entries.size := View.length_bytes ..
  obtain ⟨new, appended, number, sizes, lengths, adds⟩ := completes_addEntries steady fits distinct
    (entries.bytes 0 entries.size) entries.size (by omega)
  have total : Directory.size (records ++ new) = size := by
    rw [Directory.size_append, sizes, size_eq]
  have place : (entries.bytes 0 entries.size ++ appended).length +
      (BlockRequest.orEmpty request).size = offset := by
    rw [List.length_append, whole, lengths, offset_eq]
  have counted : (records ++ new).length = count := by rw [List.length_append, number, count_eq]
  obtain ⟨summary, completes, -⟩ := completes_sign config steady.predictable archive held inOrder
    named (fun _ _ => .of_none _ _) adds rfl (by rwa [total]) (by rwa [counted]) (by rwa [place])
    (by rw [anySize]; exact Nat.mod_one _)
  rw [closingBytes, total, place, counted, ← List.append_assoc, ← List.append_assoc] at completes
  exact ⟨summary, _, completes⟩

end Signing
end ApkArchive

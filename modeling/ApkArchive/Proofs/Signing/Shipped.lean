import ApkArchive.Proofs.Signing.Outcome

/-!
# The engine signs what is shipped

A signature is only good if the archive that is written is the one that was signed. The sections
that the engine was shown last are the sections of the output, byte for byte; the block that it
answered with stands between them, and of the end record only the place of the directory changes.
-/

namespace ApkArchive.Signing

/-- The output consists of what the engine was shown last and of its answer. -/
structure Shipped (final : Session σ) (shown : Unsigned) (answer : Option BlockRequest)
    (records : List DirectoryRecord) : Prop where
  last : final.rounds.getLast? = some (shown, some answer)
  output : final.output.bytes =
    shown.entries.data.toList ++ Bytes.zeros (BlockRequest.orEmpty answer).padding ++
      (BlockRequest.orEmpty answer).block ++ shown.directory ++ (shown.endRecordWith answer).encode
  /-- The place of the directory is not truncated. -/
  fits : shown.entries.size + (BlockRequest.orEmpty answer).size < UInt32.size
  offset : shown.endRecord.directoryOffset.toNat = shown.entries.size
  size : shown.endRecord.directorySize.toNat = shown.directory.length
  parsed : ∀ offset, Directory.parse records.length offset shown.directory = .ok records
  diskEntries : shown.endRecord.diskEntries.toNat = records.length
  totalEntries : shown.endRecord.totalEntries.toNat = records.length
  /-- Only the end record changes from one request for a block to the next. -/
  same : ∀ round ∈ final.rounds,
    round.1.entries = shown.entries ∧ round.1.directory = shown.directory
  padded : (final.rounds.map (·.1.endRecord)).Pairwise EndRecord.PaddedTo

theorem signed_is_shipped {engine : Engine σ} {config : Config} {input : View}
    {deflate : Bytes → Bytes} {start : σ} {sink : Sink} {summary : Summary} {final : Session σ}
    (run : (sign engine config input deflate).run { engine := start, output := sink } =
      .ok summary final) :
    ∃ shown answer records, Shipped final shown answer records := by
  obtain ⟨outcome, described⟩ := sign_eq_ok run
  obtain ⟨entries, body, rounds⟩ := described.rounds
  have size : entries.size = outcome.body.length := by rw [← body]; simp
  obtain ⟨offset, directorySize, diskEntries, totalEntries⟩ := described.closed.last_fields
  refine ⟨⟨entries, Directory.encode outcome.directory, outcome.last.1⟩, outcome.last.2,
    outcome.directory, ?_, ?_, ?_, ?_, directorySize, ?_, diskEntries, totalEntries, ?_, ?_⟩
  · exact described.getLast?_rounds rounds
  · rw [described.output, Outcome.bytes, ← outcome.endRecordWith_last body, Outcome.request,
      BlockRequest.bytes, body]
    simp only [List.append_assoc]
  · rw [size]
    exact described.closed.offsetFits
  · rw [size]
    exact offset
  · intro offset
    exact Directory.parse_eq_ok_iff.2 ⟨rfl, rfl, described.distinct⟩
  · intro round mem
    rw [rounds] at mem
    obtain ⟨round, _, rfl⟩ := List.mem_map.1 mem
    exact ⟨rfl, rfl⟩
  · rw [rounds, List.map_map]
    exact described.closed.negotiated.increasing

theorem sample_is_shipped :
    ∃ summary final, Sample.run Sample.script = .ok summary final ∧
      ∃ shown answer records, Shipped final shown answer records := by
  obtain ⟨summary, final, result⟩ := Sample.exists_run
  exact ⟨summary, final, result, signed_is_shipped result⟩

end ApkArchive.Signing

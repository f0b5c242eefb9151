import ApkArchive.Proofs.Signing.Answers
import ApkArchive.Proofs.Signing.Outcome
import ApkArchive.Proofs.Zip.EndRecord
import ApkArchive.Proofs.Zip.SigningBlock
import ApkArchive.Signing.PassThrough

/-!
# What a run that signs nothing leaves behind

Such a run drops signature files if it is told to, adds no entries and asks for no signing block. It
cuts off the signing block that stands before the directory of the input. It does not look for
others: all bytes before that block that belong to no entry are kept, whatever they are. So the
output has a signing block exactly if what was written before its directory happens to end in one.
-/

namespace ApkArchive.Signing

open ApkArchive.SigningBlock (EndsInBlock)

/-- Whether a session has asked for a signing block last with an end record like this, taken as it
was written. -/
def writes (p : EndRecord → Bool) (final : Session σ) : Bool :=
  ∀ round ∈ final.rounds.getLast?, ∀ answer ∈ round.2, p (round.1.endRecordWith answer)

theorem Session.EndsIn.of_writes {final : Session σ} {directory : List DirectoryRecord}
    {endRecord : EndRecord} {p : EndRecord → Bool} (ends : final.EndsIn directory endRecord)
    (h : writes p final = true) : p endRecord = true := by
  obtain ⟨shown, answer, last, rfl⟩ := ends.shown
  exact of_decide_eq_true h (shown, some answer) last answer rfl

namespace PassThrough

theorem keep_of_gives {strip : Bool} {name : String} {decision : Decision}
    (gives : Ask.Gives ((engine strip).inputEntry name) decision) :
    decide (decision.disposition = .keep) = keeps strip name := by
  obtain ⟨before, after, run⟩ := gives
  cases stays : keeps strip name with
  | true =>
    rw [inputEntry_of_keeps stays] at run
    obtain ⟨rfl, -⟩ := run_pure_eq_ok_iff.1 run
    rfl
  | false =>
    rw [inputEntry_of_not_keeps stays] at run
    obtain ⟨rfl, -⟩ := run_pure_eq_ok_iff.1 run
    rfl

theorem newEntries_of_gives {strip : Bool} {entries : Option (List NewEntry)}
    (gives : Ask.Gives (engine strip).newEntries entries) : entries = none := by
  obtain ⟨before, after, run⟩ := gives
  exact (run_pure_eq_ok_iff.1 run).1.symm

theorem signingBlock_of_gives {strip : Bool} {shown : Unsigned} {request : Option BlockRequest}
    (gives : Ask.Gives ((engine strip).signingBlock shown) request) : request = none := by
  obtain ⟨before, after, run⟩ := gives
  exact (run_pure_eq_ok_iff.1 run).1.symm

end PassThrough

/-- An outcome with nothing in it but what comes from the input. -/
structure Outcome.SignsNothing {config : Config} {input : View} {deflate : Bytes → Bytes}
    (outcome : Outcome config input deflate) (keeps : String → Bool) : Prop where
  kept : ∀ piece ∈ outcome.pieces, piece.isKept = keeps piece.record.name
  additions : outcome.additions = []
  request : outcome.last.2 = none

namespace Outcome.SignsNothing

variable {config : Config} {input : View} {deflate : Bytes → Bytes} {keeps : String → Bool}
variable {outcome : Outcome config input deflate} {final : Session σ}

theorem request_bytes (h : outcome.SignsNothing keeps) : outcome.request.bytes = [] := by
  rw [Outcome.request, h.request]
  rfl

theorem request_size (h : outcome.SignsNothing keeps) : outcome.request.size = 0 := by
  rw [← BlockRequest.length_bytes, h.request_bytes, List.length_nil]

theorem bytes_eq (h : outcome.SignsNothing keeps) :
    outcome.bytes =
      outcome.body ++ (Directory.encode outcome.directory ++ outcome.endRecord.encode) := by
  rw [bytes, h.request_bytes, List.nil_append]

theorem directory_eq (h : outcome.SignsNothing keeps) :
    outcome.directory = outcome.keptRecords := by
  rw [directory, h.additions]
  exact List.append_nil _

theorem directoryOffset_eq (h : outcome.SignsNothing keeps) (described : outcome.Describes final) :
    outcome.endRecord.directoryOffset.toNat = outcome.body.length := by
  rw [described.endRecord_fields.1, h.request_size, Nat.add_zero]

end Outcome.SignsNothing

namespace PassThrough

variable {strip : Bool} {config : Config} {input : View} {deflate : Bytes → Bytes}
variable {start : Bool} {sink : Sink} {summary : Summary} {final : Session Bool}

/-- The answers leave nothing but what comes from the input. -/
theorem signsNothing {outcome : Outcome config input deflate} (described : outcome.Describes final)
    (answers : (engine strip).AnswersAll final) : outcome.SignsNothing (keeps strip) := by
  obtain ⟨shown, body, rounds⟩ := described.rounds
  refine ⟨?_, ?_, ?_⟩
  · intro piece mem
    have decided : (piece.record.name, piece.decision.disposition) ∈ final.decisions := by
      rw [described.decisions]
      exact List.mem_map_of_mem mem
    obtain ⟨decision, gives, same⟩ := answers.gives_of_decisions decided
    rw [← keep_of_gives gives, same]
    rfl
  · apply List.map_eq_nil_iff.1
    rw [← described.supplies, List.eq_nil_iff_forall_not_mem]
    intro entry mem
    obtain ⟨entries, gives, -⟩ := answers.gives_of_supplies mem
    cases newEntries_of_gives gives
  · have last := List.mem_of_getLast? (described.getLast?_rounds rounds)
    exact signingBlock_of_gives (answers.gives_of_rounds last)

theorem sign_eq_ok
    (run : (sign (engine strip) config input deflate).run { engine := start, output := sink } =
      .ok summary final) :
    ∃ outcome : Outcome config input deflate, outcome.Describes final ∧
      outcome.SignsNothing (keeps strip) := by
  obtain ⟨outcome, described⟩ := Signing.sign_eq_ok run
  exact ⟨outcome, described, signsNothing described (answersAll_of_sign run)⟩

/-- What is read as the signing block of the output is decided by the bytes before its directory.
For a reader that finds the end record which was written, these are the gaps and the local records
of the input, up to its signing block, which is cut off. -/
theorem rewritten_is_signed_iff
    (run : (sign (engine strip) config input deflate).run { engine := start, output := sink } =
      .ok summary final) :
    ∃ outcome : Outcome config input deflate,
      (∀ block, outcome.sections.signingBlock? = some block →
        outcome.entries.size = block.offset) ∧
      final.output.bytes = bodyBytes outcome.pieces outcome.tail [] ++
        (Directory.encode outcome.directory ++ outcome.endRecord.encode) ∧
      ∀ (output : View) (sections : Sections), output.Shows final.output.bytes →
        Sections.locate output = .ok sections →
        (sections.signingBlock? = none ↔
          ¬ EndsInBlock (final.output.bytes.take sections.directoryOffset)) ∧
        (sections.endRecord = outcome.endRecord →
          final.output.bytes.take sections.directoryOffset =
            bodyBytes outcome.pieces outcome.tail []) := by
  obtain ⟨outcome, described, nothing⟩ := sign_eq_ok run
  have body : outcome.body = bodyBytes outcome.pieces outcome.tail [] := by
    rw [Outcome.body, nothing.additions]
  have written := described.output.trans nothing.bytes_eq
  have cut : ∀ block, outcome.sections.signingBlock? = some block →
      outcome.entries.size = block.offset := by
    intro block found
    obtain ⟨-, -, -, size⟩ := View.slice_eq_ok_iff.1 outcome.archive.sliced
    rw [size, Sections.entriesSize, found]
  refine ⟨outcome, cut, body ▸ written, ?_⟩
  intro output sections shows located
  obtain ⟨search, -, start, -, -, stop, block⟩ := Sections.locate_eq_ok_iff.1 located
  refine ⟨?_, ?_⟩
  · obtain ⟨inside, -⟩ := ((EndRecord.find_eq_ok_some_iff shows).1 search).place
    have length : (final.output.bytes.take sections.directoryOffset).length =
        sections.directoryOffset := by
      rw [List.length_take]
      omega
    rw [← List.take_append_drop sections.directoryOffset final.output.bytes] at shows
    rw [← length] at block
    rw [Sections.signingBlock?_eq_none_iff, SigningBlock.exists_found_iff shows block]
  · intro same
    rw [start, same, nothing.directoryOffset_eq described, written, List.take_left, body]

/-! ### Stacked signing blocks -/

/-- An archive without entries and with two signing blocks, one after the other. -/
def stacked : Bytes :=
  SigningBlock.encode [] ++ SigningBlock.encode [] ++ (Sample.emptyEnd 64).encode

/-- Whether the run succeeds and what its output is read as is like this. -/
def rewrites (strip : Bool) (config : Config) (input : Bytes)
    (p : Session Bool → Sections → Bool) : Bool :=
  match rewrite strip config input with
  | .ok _ final => (Sections.locate (View.ofBytes final.output.bytes)).toOption.any (p final)
  | .error .. => false

theorem exists_of_rewrites {input : Bytes} {p : Session Bool → Sections → Bool}
    (h : rewrites strip config input p = true) :
    ∃ summary final sections, rewrite strip config input = .ok summary final ∧
      Sections.locate (View.ofBytes final.output.bytes) = .ok sections ∧
      p final sections = true := by
  unfold rewrites at h
  split at h
  · next summary final result =>
    cases located : Sections.locate (View.ofBytes final.output.bytes) with
    | ok sections =>
      rw [located] at h
      exact ⟨summary, final, sections, result, located, h⟩
    | error error =>
      rw [located] at h
      cases h
  · cases h

/-- Only the second block is cut off, so the output is signed with the first one. -/
theorem stacked_stays_signed :
    ∃ summary final sections, rewrite false {} stacked = .ok summary final ∧
      Sections.locate (View.ofBytes final.output.bytes) = .ok sections ∧
      sections.signingBlock? ≠ none := by
  have signed : rewrites false {} stacked
      (fun _ sections => sections.signingBlock?.isSome) = true := by
    decide +kernel
  obtain ⟨summary, final, sections, result, located, some_block⟩ := exists_of_rewrites signed
  refine ⟨summary, final, sections, result, located, ?_⟩
  intro unsigned
  rw [unsigned] at some_block
  cases some_block

/-- The first block stands right before the directory of the output. -/
theorem stacked_ends_in_block :
    ∃ summary final sections, rewrite false {} stacked = .ok summary final ∧
      Sections.locate (View.ofBytes final.output.bytes) = .ok sections ∧
      EndsInBlock (final.output.bytes.take sections.directoryOffset) := by
  have signed : rewrites false {} stacked
      (fun _ sections => sections.signingBlock?.isSome) = true := by
    decide +kernel
  obtain ⟨summary, final, sections, result, located, some_block⟩ := exists_of_rewrites signed
  obtain ⟨outcome, -, -, reads⟩ := rewritten_is_signed_iff result
  refine ⟨summary, final, sections, result, located, Classical.byContradiction fun plain => ?_⟩
  rw [(reads _ sections (View.shows_ofBytes _) located).1.2 plain] at some_block
  cases some_block

end PassThrough
end ApkArchive.Signing

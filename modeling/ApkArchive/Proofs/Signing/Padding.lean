import ApkArchive.Proofs.Signing.Calls
import ApkArchive.Proofs.Signing.Found

/-!
# The size of the output

If the size of the output is to be a multiple of something, the comment is padded until the engine
answers with a block that fits. What the engine is shown differs only in the comment, so answers of
one size fit at the second time at the latest, and then the padding is the least that is enough.

    inquiry ──misses by k──▶ inquiry with k zero bytes more
-/

namespace ApkArchive

theorem EndRecord.comment_of_padComment {record padded : EndRecord} {padding : Nat}
    (run : record.padComment padding = .ok padded) :
    padded.comment = record.comment ++ Bytes.zeros padding := by
  unfold padComment at run
  dsimp only at run
  split at run
  · cases run
    rfl
  · cases run

/-- A record is determined by what it is padded from and by its comment. -/
theorem EndRecord.PaddedTo.eq_of_comment {earlier later : EndRecord} (h : earlier.PaddedTo later)
    (same : later.comment = earlier.comment) : later = earlier := by
  obtain ⟨padding, -, rfl⟩ := h
  have length := congrArg List.length same
  simp only [List.length_append, Bytes.length_zeros] at length
  obtain rfl : padding = 0 := by omega
  simp [Bytes.zeros]

namespace Signing

/-! ### What is missing to a multiple -/

section Missing

variable {multiple total : Nat}

theorem add_missing_mod (misses : total % multiple ≠ 0) (positive : 0 < multiple) :
    (total + (multiple - total % multiple)) % multiple = 0 := by
  have short : multiple - total % multiple < multiple := by omega
  have fits := ExtraField.add_paddingTo_mod positive total
  rwa [ExtraField.paddingTo, Nat.mod_eq_of_lt short] at fits

/-- Nothing less than what is missing leads to a multiple. -/
theorem missing_le {k : Nat} (misses : total % multiple ≠ 0) (fits : (total + k) % multiple = 0) :
    multiple - total % multiple ≤ k := by
  refine Nat.le_of_not_lt fun less => misses ?_
  have same : (total % multiple + k) % multiple = 0 := by rw [Nat.mod_add_mod, fits]
  rw [Nat.mod_eq_of_lt (by omega)] at same
  omega

end Missing

/-! ### What the engine is shown -/

namespace Setting

variable {setting : Setting} {inquiries : List Inquiry}

/-- The sections are those of a complete output, with the end record of the input for its directory
and the comment padded. -/
structure Presents (setting : Setting) (entries : ByteArray) (records : List DirectoryRecord)
    (shown : Unsigned) : Prop where
  sameEntries : shown.entries = entries
  sameDirectory : shown.directory = Directory.encode records
  padded : (setting.endRecord.withDirectory (UInt16.ofNat records.length)
    (UInt32.ofNat (Directory.size records)) (UInt32.ofNat entries.size)).PaddedTo shown.endRecord

/-- All inquiries show the same output. -/
theorem Trail.presents (trail : setting.Trail inquiries) (some : inquiries ≠ []) :
    ∃ entries records, setting.complete entries records ∧
      ∀ inquiry ∈ inquiries, setting.Presents entries records inquiry.1 := by
  induction trail with
  | nil => exact absurd rfl some
  | snoc trail asks answer ih =>
    cases asks with
    | first complete =>
      refine ⟨_, _, complete, fun inquiry mem => ?_⟩
      rw [List.mem_singleton.1 mem]
      exact ⟨rfl, rfl, .refl _⟩
    | again few misses padded =>
      obtain ⟨entries, records, complete, presents⟩ := ih (by simp)
      refine ⟨entries, records, complete, fun inquiry mem => ?_⟩
      rcases List.mem_append.1 mem with old | new
      · exact presents inquiry old
      · rw [List.mem_singleton.1 new]
        have last := presents _ (List.mem_append_right _ (List.mem_singleton.2 rfl))
        exact ⟨last.sameEntries, last.sameDirectory,
          last.padded.trans (EndRecord.paddedTo_of_padComment padded)⟩

/-- An inquiry is made after others only if the last of them missed. -/
theorem Trail.misses (trail : setting.Trail inquiries) :
    ∀ inquiry ∈ inquiries.dropLast, inquiry.total % setting.multiple ≠ 0 := by
  induction trail with
  | nil => exact fun _ mem => nomatch mem
  | snoc trail asks answer ih =>
    rw [List.dropLast_concat]
    cases asks with
    | first complete => exact fun _ mem => nomatch mem
    | again few misses padded =>
      intro inquiry mem
      rcases List.mem_append.1 mem with old | new
      · exact ih inquiry (by rwa [List.dropLast_concat])
      · rw [List.mem_singleton.1 new]
        exact misses

theorem Trail.of_concat {last : Inquiry} (trail : setting.Trail (inquiries ++ [last])) :
    setting.Trail inquiries ∧ setting.Asks inquiries last.1 := by
  generalize same : inquiries ++ [last] = all at trail
  cases trail with
  | nil => simp at same
  | snoc trail asks answer =>
    obtain ⟨rfl, single⟩ := List.append_inj' same rfl
    cases single
    exact ⟨trail, asks⟩

/-- At first the comment is that of the input. -/
theorem Asks.of_nil {shown : Unsigned} (asks : setting.Asks [] shown) :
    shown.endRecord.comment = setting.endRecord.comment := by
  generalize same : [] = inquiries at asks
  cases asks with
  | first complete => rfl
  | again few misses padded => simp at same

end Setting

/-! ### Answers of one size -/

/-- All answers ask for blocks of one size, padding included. -/
def Alike (inquiries : List Inquiry) : Prop :=
  ∃ size, ∀ inquiry ∈ inquiries, (BlockRequest.orEmpty inquiry.2).size = size

theorem Alike.of_front {inquiries front : List Inquiry} (alike : Alike inquiries)
    (h : front <+: inquiries) : Alike front := by
  obtain ⟨size, alike⟩ := alike
  exact ⟨size, fun inquiry mem => alike inquiry (h.subset mem)⟩

theorem Unsigned.total_eq (shown : Unsigned) (answer : Option BlockRequest) :
    shown.total answer = shown.entries.size + (BlockRequest.orEmpty answer).size +
      shown.directory.length + (EndRecord.fixedSize + shown.endRecord.comment.length) := by
  rw [Unsigned.total, EndRecord.length_encode]
  cases answer <;> rfl

/-- With a block of the same size, the output grows by the padding. -/
theorem Unsigned.total_again {shown : Unsigned} {endRecord : EndRecord} {padding : Nat}
    {answer answer' : Option BlockRequest}
    (padded : shown.endRecord.padComment padding = .ok endRecord)
    (alike : (BlockRequest.orEmpty answer').size = (BlockRequest.orEmpty answer).size) :
    Unsigned.total { shown with endRecord } answer' = shown.total answer + padding := by
  rw [Unsigned.total_eq, Unsigned.total_eq, alike, EndRecord.comment_of_padComment padded,
    List.length_append, Bytes.length_zeros]
  simp only [Nat.add_assoc]

namespace Setting

variable {setting : Setting} {inquiries : List Inquiry}

/-- The inquiry that follows one that missed fits, if the answers have one size. -/
theorem Asks.total_again {last next : Inquiry} (asks : setting.Asks (inquiries ++ [last]) next.1)
    (alike : Alike (inquiries ++ [last, next])) :
    next.total = last.total + (setting.multiple - last.total % setting.multiple) := by
  obtain ⟨size, alike⟩ := alike
  obtain ⟨-, endRecord, same, padded⟩ := asks.of_concat
  rw [Inquiry.total, same]
  exact Unsigned.total_again padded ((alike next (by simp)).trans (alike last (by simp)).symm)

/-- Answers of one size miss only once, so nothing is asked for a third time. -/
theorem Asks.length_le_one {shown : Unsigned} (asks : setting.Asks inquiries shown)
    (trail : setting.Trail inquiries) (alike : Alike inquiries)
    (positive : 0 < setting.multiple) : inquiries.length ≤ 1 := by
  rcases List.eq_nil_or_concat' inquiries with rfl | ⟨before, last, rfl⟩
  · exact Nat.zero_le 1
  rcases List.eq_nil_or_concat' before with rfl | ⟨before, first, rfl⟩
  · exact Nat.le_refl 1
  obtain ⟨misses, -⟩ := asks.of_concat
  obtain ⟨-, asked⟩ := trail.of_concat
  rw [List.append_assoc] at alike
  rw [asked.total_again alike] at misses
  exact absurd (add_missing_mod asked.of_concat.1 positive) misses

end Setting

/-! ### Padding of the comment -/

namespace Setting

variable {setting : Setting} {before : List Inquiry} {last : Inquiry}

/-- The comment that is shown last is that of the input with some zero bytes; if all answers have
one size, it has no more of them than it takes. -/
theorem Trail.padding (trail : setting.Trail (before ++ [last])) (positive : 0 < setting.multiple) :
    ∃ k, last.1.endRecord.comment = setting.endRecord.comment ++ Bytes.zeros k ∧
      (Alike (before ++ [last]) → ∀ j, (last.total - k + j) % setting.multiple = 0 → k ≤ j) := by
  obtain ⟨entries, records, -, presents⟩ := trail.presents (by simp)
  obtain ⟨k, -, padded⟩ :=
    (presents last (List.mem_append_right _ (List.mem_singleton.2 rfl))).padded
  have comment : last.1.endRecord.comment = setting.endRecord.comment ++ Bytes.zeros k := by
    rw [padded]
    rfl
  refine ⟨k, comment, fun alike j fits => ?_⟩
  obtain ⟨earlier, asks⟩ := trail.of_concat
  rcases List.eq_nil_or_concat' before with rfl | ⟨before, first, rfl⟩
  · rw [asks.of_nil] at comment
    have length := congrArg List.length comment
    rw [List.length_append, Bytes.length_zeros] at length
    omega
  -- The first answer missed, so nothing was padded before it.
  have once := asks.length_le_one earlier (alike.of_front (List.prefix_append _ _)) positive
  obtain rfl : before = [] := List.length_eq_zero_iff.1 (by simpa using once)
  obtain ⟨misses, endRecord, same, padded⟩ := asks.of_concat
  have grown : k = setting.multiple - first.total % setting.multiple := by
    have length := congrArg List.length comment
    rw [same, EndRecord.comment_of_padComment padded, earlier.of_concat.2.of_nil] at length
    simpa using length.symm
  rw [List.append_assoc] at alike
  rw [asks.total_again alike, ← grown, Nat.add_sub_cancel] at fits
  rw [grown]
  exact missing_le misses fits

end Setting

/-! ### The requests of a run -/

/-- All answers to the requests for a signing block ask for blocks of one size, padding included. -/
def Session.AnswersAlike (session : Session σ) : Prop :=
  ∃ size, ∀ shown answer, (shown, some answer) ∈ session.rounds →
    (BlockRequest.orEmpty answer).size = size

namespace Setting

variable {setting : Setting} {rounds : List (Unsigned × Option (Option BlockRequest))}
variable {inquiries : List Inquiry}

theorem alike_of_rounds {size : Nat}
    (alike : ∀ shown answer, (shown, some answer) ∈ rounds →
      (BlockRequest.orEmpty answer).size = size)
    (among : ∀ inquiry ∈ inquiries, Inquiry.answered inquiry ∈ rounds) : Alike inquiries :=
  ⟨size, fun inquiry mem => alike inquiry.1 inquiry.2 (among inquiry mem)⟩

theorem Rounds.length_le_two (h : setting.Rounds rounds) (positive : 0 < setting.multiple)
    {size : Nat} (alike : ∀ shown answer, (shown, some answer) ∈ rounds →
      (BlockRequest.orEmpty answer).size = size) : rounds.length ≤ 2 := by
  cases h with
  | answered trail =>
    rw [List.length_map]
    have alike := alike_of_rounds alike fun inquiry => List.mem_map_of_mem
    cases trail with
    | nil => exact Nat.zero_le _
    | snoc trail asks answer =>
      have := asks.length_le_one trail (alike.of_front (List.prefix_append _ _)) positive
      simp only [List.length_append, List.length_singleton]
      omega
  | broken trail asks =>
    have := asks.length_le_one trail (alike_of_rounds alike fun inquiry mem =>
      List.mem_append_left _ (List.mem_map_of_mem mem)) positive
    simp only [List.length_append, List.length_map, List.length_singleton]
    omega

/-- All requests show the same complete output. -/
theorem Rounds.presents (h : setting.Rounds rounds) (some : rounds ≠ []) :
    ∃ entries records, setting.complete entries records ∧
      ∀ round ∈ rounds, setting.Presents entries records round.1 := by
  have of_trail {inquiries : List Inquiry} (trail : setting.Trail inquiries)
      (some : inquiries ≠ []) (among : ∀ round ∈ rounds, round.1 ∈ inquiries.map (·.1)) :
      ∃ entries records, setting.complete entries records ∧
        ∀ round ∈ rounds, setting.Presents entries records round.1 := by
    obtain ⟨entries, records, complete, presents⟩ := trail.presents some
    refine ⟨entries, records, complete, fun round mem => ?_⟩
    obtain ⟨inquiry, mem, same⟩ := List.mem_map.1 (among round mem)
    exact same ▸ presents inquiry mem
  cases h with
  | answered trail =>
    refine of_trail trail (by simpa using some) ?_
    rintro _ mem
    obtain ⟨inquiry, asked, rfl⟩ := List.mem_map.1 mem
    exact List.mem_map_of_mem asked
  | broken trail asks =>
    -- Whatever the engine had answered, the request would show the same.
    refine of_trail (trail.snoc asks none) (by simp) ?_
    rintro round mem
    rw [List.map_append]
    rcases List.mem_append.1 mem with old | new
    · obtain ⟨inquiry, asked, rfl⟩ := List.mem_map.1 old
      exact List.mem_append_left _ (List.mem_map_of_mem asked)
    · rw [List.mem_singleton.1 new]
      exact List.mem_append_right _ (List.mem_singleton.2 rfl)

end Setting

/-! ### The output -/

section Ends

variable {engine : Engine σ} {start : σ} {setting : Setting} {final : Session σ}

/-- What is missing is the answer to the last call. -/
theorem BreaksOff.getLast?_calls (breaks : BreaksOff setting final.calls.toList) {shown : Unsigned}
    (mem : (shown, none) ∈ final.rounds) :
    ∃ written, final.calls.toList.getLast? = some (.signingBlock shown none, written) := by
  obtain ⟨earlier, phase, call, written, next, reaches, step, same⟩ := breaks
  obtain ⟨last, mem, asked⟩ := List.mem_filterMap.1 mem
  rw [same] at mem ⊢
  rcases List.mem_append.1 mem with old | new
  · have answered : (shown, none) ∈ earlier.filterMap fun call => call.1.round? :=
      List.mem_filterMap.2 ⟨last, old, asked⟩
    rw [reaches.inquiries.2] at answered
    obtain ⟨inquiry, -, contra⟩ := List.mem_map.1 answered
    cases contra
  · rw [List.mem_singleton.1 new] at asked
    refine ⟨written, ?_⟩
    rw [List.getLast?_concat]
    cases call with
    | signingBlock shown' answer => cases asked; rfl
    | _ => cases asked

/-- If an answer to a request is missing, or the comment could not be padded, then nothing was
written after the entries. -/
theorem Stops.untouched {error : Error} (stops : Stops engine start setting error final)
    (early : error.isFromPadding = true ∨ ∃ shown, (shown, none) ∈ final.rounds) :
    ∃ records, setting.complete final.output.contents records ∧
      ∀ round ∈ final.rounds, setting.Presents final.output.contents records round.1 := by
  have whole {round : Unsigned × Option (Option BlockRequest)} (mem : round ∈ final.rounds)
      (same : round.1.entries = final.output.contents) :
      ∃ records, setting.complete final.output.contents records ∧
        ∀ round ∈ final.rounds, setting.Presents final.output.contents records round.1 := by
    obtain ⟨entries, records, complete, presents⟩ := stops.rounds.presents (List.ne_nil_of_mem mem)
    obtain rfl : entries = final.output.contents := (presents round mem).sameEntries.symm.trans same
    exact ⟨records, complete, presents⟩
  have answered {phase : Phase} (stands : Stands engine start setting phase final) :
      ¬ ∃ shown, (shown, none) ∈ final.rounds := by
    rintro ⟨shown, mem⟩
    rw [stands.rounds_eq] at mem
    obtain ⟨inquiry, -, contra⟩ := List.mem_map.1 mem
    cases contra
  cases stops with
  | stopped stands stuck other =>
    rcases early with padding | missing
    · exact absurd padding (other ▸ Bool.false_ne_true)
    · exact absurd missing (answered stands)
  | @unpadded records inquiries last stands stuck misses untouched reason =>
    have mem : last.answered ∈ final.rounds := by
      rw [stands.rounds_eq]
      exact List.mem_map_of_mem (List.mem_append_right _ (List.mem_singleton.2 rfl))
    exact whole mem untouched
  | failed breaks fails same untouched =>
    rcases early with padding | ⟨shown, mem⟩
    · cases same
      cases padding
    · obtain ⟨written, last⟩ := breaks.getLast?_calls mem
      exact whole mem (untouched shown written last)

/-- A run gives up after eight answers that did not fit. -/
theorem Stops.convergence {attempts : Nat}
    (stops : Stops engine start setting (.convergence attempts) final) :
    attempts = maxAttempts ∧ final.rounds.length = maxAttempts ∧
      ∀ round ∈ final.rounds, ∃ answer, round.2 = some answer ∧
        round.1.total answer % setting.multiple ≠ 0 := by
  cases stops with
  | stopped stands stuck other => cases other
  | failed breaks fails same untouched => cases same
  | @unpadded records inquiries last stands stuck misses untouched reason =>
    rcases reason with ⟨same, many⟩ | ⟨_, same⟩
    · rw [stands.rounds_eq]
      refine ⟨Error.convergence.inj same, by simpa [Phase.inquiries] using many, ?_⟩
      intro round mem
      obtain ⟨inquiry, asked, rfl⟩ := List.mem_map.1 mem
      refine ⟨inquiry.2, rfl, ?_⟩
      rcases List.mem_append.1 asked with old | new
      · exact stands.reaches.inquiries.1.misses inquiry
          (by rwa [Phase.inquiries, List.dropLast_concat])
      · rw [List.mem_singleton.1 new]
        exact misses
    · cases same

end Ends

theorem Session.AnswersAlike.inquiries {final : Session σ} (alike : final.AnswersAlike)
    {inquiries : List Inquiry} (rounds : final.rounds = inquiries.map Inquiry.answered) :
    Alike inquiries := by
  obtain ⟨size, alike⟩ := alike
  exact Setting.alike_of_rounds alike fun inquiry mem => rounds ▸ List.mem_map_of_mem mem

theorem Session.AnswersAlike.length_rounds {setting : Setting} {final : Session σ}
    (alike : final.AnswersAlike) (rounds : setting.Rounds final.rounds)
    (positive : 0 < setting.multiple) : final.rounds.length ≤ 2 := by
  obtain ⟨size, alike⟩ := alike
  exact rounds.length_le_two positive alike

/-- The comment that is written is the one that was shown last. -/
theorem Stands.comment_eq {engine : Engine σ} {start : σ} {setting : Setting} {final : Session σ}
    {before : List Inquiry} {last : Inquiry}
    (stands : Stands engine start setting (.done (before ++ [last])) final)
    {directory : List DirectoryRecord} {endRecord : EndRecord}
    (ends : final.EndsIn directory endRecord) :
    endRecord.comment = last.1.endRecord.comment := by
  obtain ⟨shown, answer, asked, rfl⟩ := ends.shown
  have closing : final.rounds.getLast? = some last.answered := by
    rw [stands.rounds_eq, Phase.inquiries, List.map_append]
    exact List.getLast?_concat
  cases asked.symm.trans closing
  rfl

/-- If every size will do, the comment stays as it is. -/
theorem Finishes.comment_eq {engine : Engine σ} {config : Config} {input : View}
    {deflate : Bytes → Bytes} {start : σ} {final : Session σ}
    (finishes : Finishes engine config input deflate start final)
    (any : config.sizeMultiple.getD 1 ≤ 1) {sections : Sections} {records : List DirectoryRecord}
    {entries : View} (archive : input.IsArchive sections records entries)
    {directory : List DirectoryRecord} {endRecord : EndRecord}
    (ends : final.EndsIn directory endRecord) :
    endRecord.comment = sections.endRecord.comment := by
  cases finishes with
  | @intro sections' records' entries' before last archive' stands complete finished =>
    obtain ⟨rfl, rfl, rfl⟩ := archive.unique archive'
    obtain ⟨trail, asks⟩ := stands.reaches.inquiries.1.of_concat
    rw [stands.comment_eq ends]
    rcases List.eq_nil_or_concat' before with rfl | ⟨before, first, rfl⟩
    · exact asks.of_nil
    · have one : (Setting.of config input deflate sections records entries).multiple = 1 :=
        Nat.max_eq_left any
      exact absurd (by rw [one, Nat.mod_one]) asks.of_concat.1

/-- If every size will do, the end record is the one of the input for the new directory. -/
theorem endRecord_of_describes {engine : Engine σ} {config : Config} {input : View}
    {deflate : Bytes → Bytes} {start : σ} {sink : Sink} {summary : Summary} {final : Session σ}
    (any : config.sizeMultiple.getD 1 ≤ 1)
    (run : (sign engine config input deflate).run { engine := start, output := sink } =
      .ok summary final) {outcome : Outcome config input deflate}
    (described : outcome.Describes final) :
    outcome.endRecord = outcome.sections.endRecord.withDirectory
      (UInt16.ofNat outcome.directory.length) (UInt32.ofNat (Directory.size outcome.directory))
        (UInt32.ofNat (outcome.body.length + outcome.request.size)) := by
  have finishes := (ensures_sign engine config input deflate start sink).ok rfl run
  have comment := finishes.comment_eq any outcome.archive described.endsIn
  rw [Outcome.endRecord, described.closed.negotiated.last_padded.eq_of_comment comment]
  rfl

section Multiple

variable {config : Config} {n : Nat} (multiple : config.sizeMultiple = some n) (many : 1 < n)
include multiple many

theorem Setting.multiple_of (input : View) (deflate : Bytes → Bytes) (sections : Sections)
    (records : List DirectoryRecord) (entries : View) :
    (Setting.of config input deflate sections records entries).multiple = n := by
  rw [Setting.of, multiple, Option.getD_some]
  exact Nat.max_eq_right (Nat.le_of_lt many)

variable {engine : Engine σ} {input : View} {deflate : Bytes → Bytes} {start : σ} {sink : Sink}
variable {final : Session σ} {error : Error}

/-- With answers of one size a run does not give up. -/
theorem Fails.alike (fails : Fails engine config input deflate start sink error final)
    (alike : final.AnswersAlike) :
    final.rounds.length ≤ 2 ∧ ∀ attempts, error ≠ .convergence attempts := by
  cases fails with
  | early calls output same other =>
    refine ⟨by rw [Session.rounds, calls]; exact Nat.zero_le 2, ?_⟩
    rintro attempts rfl
    cases other
  | @late sections records entries archive stops =>
    have few := alike.length_rounds stops.rounds (by rw [Setting.multiple_of multiple many]; omega)
    refine ⟨few, ?_⟩
    rintro attempts rfl
    rw [stops.convergence.2.1] at few
    exact absurd few (by decide)

theorem Fails.convergence {attempts : Nat}
    (fails : Fails engine config input deflate start sink (.convergence attempts) final) :
    attempts = maxAttempts ∧ final.rounds.length = maxAttempts ∧
      ∀ round ∈ final.rounds, ∃ answer, round.2 = some answer ∧
        round.1.total answer % n ≠ 0 := by
  cases fails with
  | early calls output same other => cases other
  | late archive stops =>
    have tried := stops.convergence
    rwa [Setting.multiple_of multiple many] at tried

omit multiple many in
/-- If the comment cannot be padded or a request fails, the output is what comes before the signing
block. -/
theorem Fails.untouched (fails : Fails engine config input deflate start sink error final)
    (early : error.isFromPadding = true ∨ ∃ shown, (shown, none) ∈ final.rounds) :
    ∃ outcome : Outcome config input deflate, final.output.bytes = outcome.body ∧
      ∀ round ∈ final.rounds, round.1.entries = final.output.contents ∧
        round.1.directory = Directory.encode outcome.directory := by
  cases fails with
  | early calls output same other =>
    rcases early with padding | ⟨shown, mem⟩
    · exact absurd padding (other ▸ Bool.false_ne_true)
    · rw [Session.rounds, calls] at mem
      cases mem
  | late archive stops =>
    obtain ⟨records, ⟨outcome, body, rfl⟩, presents⟩ := stops.untouched early
    exact ⟨outcome, body, fun round mem =>
      ⟨(presents round mem).sameEntries, (presents round mem).sameDirectory⟩⟩

/-- The comment of an output is that of the input with some zero bytes, and with no more than it
takes if all answers have one size. -/
theorem Finishes.padding (finishes : Finishes engine config input deflate start final)
    {endRecord : EndRecord} {directory : List DirectoryRecord}
    (ends : final.EndsIn directory endRecord) :
    ∃ sections records entries k, input.IsArchive sections records entries ∧
      endRecord.comment = sections.endRecord.comment ++ Bytes.zeros k ∧
      (final.AnswersAlike → final.rounds.length ≤ 2 ∧
        ∀ j, (final.output.bytes.length - k + j) % n = 0 → k ≤ j) := by
  cases finishes with
  | @intro sections records entries before last archive stands complete finished =>
    have same := Setting.multiple_of multiple many input deflate sections records entries
    have positive : 0 < (Setting.of config input deflate sections records entries).multiple := by
      omega
    obtain ⟨k, comment, least⟩ := stands.reaches.inquiries.1.padding positive
    refine ⟨sections, records, entries, k, archive, ?_, fun alike => ⟨?_, ?_⟩⟩
    · rw [stands.comment_eq ends]
      exact comment
    · exact alike.length_rounds stands.rounds positive
    · rw [← Sink.position_eq, complete, ← same]
      exact least (alike.inquiries stands.rounds_eq)

end Multiple

/-- An output of a multiple of the wanted size has the comment of the input with some zero bytes.
Answers of one size need at most two requests and no more zero bytes than it takes. A run gives up
after eight answers that do not fit, and then, or if the comment gets too long or a request for a
signing block fails, it has written what comes before the signing block and nothing else. -/
theorem output_is_padded (engine : Engine σ) (config : Config) (input : View)
    (deflate : Bytes → Bytes) (start : σ) (sink : Sink) {n : Nat}
    (multiple : config.sizeMultiple = some n) (many : 1 < n) :
    let result := (sign engine config input deflate).run { engine := start, output := sink }
    (∀ summary final, result = .ok summary final →
      final.output.bytes.length % n = 0 ∧ final.rounds.length ≤ maxAttempts ∧
      ∃ sections records entries directory endRecord k,
        input.IsArchive sections records entries ∧ final.EndsIn directory endRecord ∧
        endRecord.comment = sections.endRecord.comment ++ Bytes.zeros k ∧
        endRecord.commentLength.toNat = endRecord.comment.length ∧
        (final.AnswersAlike → final.rounds.length ≤ 2 ∧
          ∀ j, (final.output.bytes.length - k + j) % n = 0 → k ≤ j)) ∧
    ∀ error final, result = .error error final →
      (final.AnswersAlike →
        final.rounds.length ≤ 2 ∧ ∀ attempts, error ≠ .convergence attempts) ∧
      (∀ attempts, error = .convergence attempts →
        attempts = maxAttempts ∧ final.rounds.length = maxAttempts ∧
        ∀ round ∈ final.rounds, ∃ answer, round.2 = some answer ∧
          round.1.total answer % n ≠ 0) ∧
      ((∃ attempts, error = .convergence attempts) ∨
          (∃ size, error = .fault (.commentTooLong size)) ∨
          (∃ shown, (shown, none) ∈ final.rounds) →
        ∃ outcome : Outcome config input deflate, final.output.bytes = outcome.body ∧
          ∀ round ∈ final.rounds, round.1.entries = final.output.contents ∧
            round.1.directory = Directory.encode outcome.directory) := by
  have ensures := ensures_sign engine config input deflate start sink
  refine ⟨fun summary final run => ?_, fun error final run => ?_⟩
  · have finishes := ensures.ok rfl run
    obtain ⟨outcome, described⟩ := sign_eq_ok run
    obtain ⟨sections, records, entries, k, archive, comment, least⟩ :=
      finishes.padding multiple many described.endsIn
    have aligned := described.aligned
    rw [multiple, Option.getD_some, Nat.max_eq_right (Nat.le_of_lt many)] at aligned
    have consistent := EndRecord.isConsistent_iff.1 described.isConsistent
    refine ⟨aligned, ?_, sections, records, entries, outcome.directory, outcome.endRecord, k,
      archive, described.endsIn, comment, consistent, least⟩
    cases finishes with
    | intro archive stands complete ends => exact stands.rounds.length_le
  · have fails := ensures.error rfl run
    refine ⟨fails.alike multiple many, ?_, fun reason => fails.untouched ?_⟩
    · rintro attempts rfl
      exact fails.convergence multiple many
    · rcases reason with ⟨attempts, rfl⟩ | ⟨size, rfl⟩ | missing
      · exact .inl rfl
      · exact .inl rfl
      · exact .inr missing

open PassThrough (rewrite rewrites exists_of_rewrites) in
/-- Nobody signs this archive, so the answers are alike; the second request shows a comment that has
four bytes more. -/
theorem sample_is_padded :
    ∃ summary final, rewrite false Sample.padding Sample.commented = .ok summary final ∧
      final.rounds.length = 2 ∧ final.output.bytes.length = 140 ∧
      ∃ directory endRecord k, final.EndsIn directory endRecord ∧
        ∀ j, (final.output.bytes.length - k + j) % 140 = 0 → k ≤ j := by
  have asked : rewrites false Sample.padding Sample.commented (fun final _ =>
      final.rounds.length = 2 && (final.output.bytes.length = 140 &&
        final.rounds.all fun round => round.2 = some none)) = true := by
    decide +kernel
  obtain ⟨summary, final, sections, result, -, holds⟩ := exists_of_rewrites asked
  simp only [Bool.and_eq_true, decide_eq_true_eq, List.all_eq_true] at holds
  obtain ⟨twice, size, unsigned⟩ := holds
  have alike : final.AnswersAlike := by
    refine ⟨0, fun shown answer mem => ?_⟩
    cases unsigned _ mem
    rfl
  obtain ⟨-, -, -, -, -, directory, endRecord, k, -, ends, -, -, least⟩ :=
    (output_is_padded (PassThrough.engine false) Sample.padding _ _ _ _ rfl
      (by decide)).1 _ _ result
  exact ⟨summary, final, result, twice, size, directory, endRecord, k, ends, (least alike).2⟩

end Signing
end ApkArchive

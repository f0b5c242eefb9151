import ApkArchive.Proofs.Signing.Checked
import ApkArchive.Proofs.Signing.Limits
import ApkArchive.Proofs.Signing.Shown

/-!
# Signing twice

An engine that keeps every entry, adds none and always asks for the same signing block finds its own
block in the output, and a second run puts the block in its own place again. The zero bytes before
the block are not part of it: for the second run they are a gap like any other, which is copied, so
there are twice as many afterwards.

    entries, padding, block, … ──▶ entries, padding, padding, block, …
-/

namespace ApkArchive.Signing

open Run

/-- Whatever such an engine answers, it keeps the entry, adds no entries and asks for the block. -/
structure Engine.Resigns (engine : Engine σ) (request : BlockRequest) : Prop where
  keeps : ∀ name decision, Ask.Gives (engine.inputEntry name) decision →
    decision.disposition = .keep
  addsNone : ∀ entries, Ask.Gives engine.newEntries (some entries) → entries = []
  requests : ∀ shown answer, Ask.Gives (engine.signingBlock shown) answer → answer = some request

/-- An answer that is given in every state is the only one. -/
theorem Ask.Always.eq_of_gives {question : Ask σ α} {a b : α} (always : Ask.Always question a)
    (gives : Ask.Gives question b) : b = a := by
  obtain ⟨before, after, run⟩ := gives
  obtain ⟨after', run'⟩ := always before
  cases run.symm.trans run'
  rfl

theorem Engine.Predictable.resigns {engine : Engine σ} {looks : Stage → String → Option Sink}
    {request : BlockRequest}
    (predictable : engine.Predictable looks (fun _ => True) none (some request)) :
    engine.Resigns request where
  keeps name decision gives := by
    obtain ⟨remark, always⟩ := predictable.inputEntry name trivial
    rw [always.eq_of_gives gives]
  addsNone entries gives := nomatch predictable.newEntries.eq_of_gives gives
  requests shown answer gives := (predictable.signingBlock shown).eq_of_gives gives

namespace Outcome

variable {config : Config} {input : View} {deflate : Bytes → Bytes}
variable {outcome : Outcome config input deflate} {engine : Engine σ} {final : Session σ}
variable {request : BlockRequest}

/-- The outcome of a run in which every entry is kept, none is added, and the block is asked for. -/
structure Resigned (outcome : Outcome config input deflate) (request : BlockRequest) : Prop where
  keepsAll : outcome.KeepsAll
  additions : outcome.additions = []
  last : outcome.last.2 = some request

theorem Describes.resigned (described : outcome.Describes final) (answers : engine.AnswersAll final)
    (resigns : engine.Resigns request) : outcome.Resigned request := by
  obtain ⟨shown, body, rounds⟩ := described.rounds
  refine ⟨?_, ?_, ?_⟩
  · intro piece mem
    have decided : (piece.record.name, piece.decision.disposition) ∈ final.decisions := by
      rw [described.decisions]
      exact List.mem_map_of_mem mem
    obtain ⟨decision, gives, same⟩ := answers.gives_of_decisions decided
    exact decide_eq_true (same.symm.trans (resigns.keeps _ decision gives))
  · apply List.map_eq_nil_iff.1
    rw [← described.supplies, List.eq_nil_iff_forall_not_mem]
    intro entry mem
    obtain ⟨entries, gives, mem'⟩ := answers.gives_of_supplies mem
    rw [resigns.addsNone entries gives] at mem'
    cases mem'
  · have last := List.mem_of_getLast? (described.getLast?_rounds rounds)
    exact resigns.requests _ _ (answers.gives_of_rounds last)

theorem Resigned.request_eq (resigned : outcome.Resigned request) : outcome.request = request :=
  congrArg BlockRequest.orEmpty resigned.last

theorem Resigned.directory_eq (resigned : outcome.Resigned request) :
    outcome.directory = outcome.keptRecords := by
  rw [directory, resigned.additions]
  exact List.append_nil _

/-- A reader finds the block that was written, and before it the entries with the padding. -/
theorem Describes.exists_isArchive (described : outcome.Describes final) {view : View}
    (shows : view.Shows final.output.bytes) (plain : outcome.endRecord.comment = [])
    (small : outcome.endRecord.isZip64 = false)
    (isBlock : SigningBlock.IsBlock outcome.request.block) :
    ∃ sections entries, view.IsArchive sections outcome.directory entries ∧
      entries.Shows (outcome.body ++ Bytes.zeros outcome.request.padding) ∧
      sections.endRecord = outcome.endRecord := by
  have search := described.endsIn.find_of_no_comment shows plain described.isConsistent
  obtain ⟨sections, entries, archive, entriesShow⟩ :=
    outcome.exists_isArchive described shows search small (.inl isBlock)
  obtain ⟨found, -⟩ := Sections.locate_eq_ok_iff.1 archive.located
  rw [search, Except.ok.injEq, Option.some.injEq, Prod.mk.injEq] at found
  exact ⟨sections, entries, archive, entriesShow, found.1.symm⟩

end Outcome

/-- The archive that has zero bytes, a signing block and a directory after the body of its
entries. -/
def signedBytes (body : Bytes) (request : BlockRequest) (directory : List DirectoryRecord)
    (endRecord : EndRecord) : Bytes :=
  body ++ (request.bytes ++ (Directory.encode directory ++ endRecord.encode))

section Twice

variable {engine : Engine σ} {request : BlockRequest} {config : Config} {input : View}
variable {deflate : Bytes → Bytes} {start : σ} {sink : Sink} {summary : Summary}
variable {final : Session σ}

/-- A run on the output of another one writes the entries and, before the block, the padding of the
first run and that of the second one. -/
theorem output_of_resigned {view : View} {deflate' : Bytes → Bytes} {start' : σ} {sink' : Sink}
    {summary' : Summary} {final' : Session σ} (any : config.sizeMultiple = none)
    (run : (sign engine config input deflate).run { engine := start, output := sink } =
      .ok summary final)
    (run' : (sign engine config view deflate').run { engine := start', output := sink' } =
      .ok summary' final')
    {outcome : Outcome config input deflate} (described : outcome.Describes final)
    (resigned : outcome.Resigned request)
    {outcome' : Outcome config view deflate'} (described' : outcome'.Describes final')
    (resigned' : outcome'.Resigned request)
    (shows : outcome'.entries.Shows (outcome.body ++ Bytes.zeros request.padding))
    (records : outcome'.records = outcome.directory)
    (read : outcome'.sections.endRecord = outcome.endRecord) :
    final'.output.bytes = signedBytes (outcome.body ++ Bytes.zeros request.padding) request
      outcome.directory (outcome.endRecord.withDirectoryOffset
        (UInt32.ofNat (outcome.endRecord.directoryOffset.toNat + request.padding))) := by
  have any : config.sizeMultiple.getD 1 ≤ 1 := by rw [any]; exact Nat.le_refl 1
  have inOrder := outcome.inOrder_keptRecords_append shows
  rw [← resigned.directory_eq, ← records] at inOrder
  obtain ⟨body, directory⟩ :=
    outcome'.body_of_inOrder resigned'.keepsAll resigned'.additions inOrder
  rw [shows.contents] at body
  have place : outcome'.body.length + request.size =
      outcome.endRecord.directoryOffset.toNat + request.padding := by
    rw [body, List.length_append, Bytes.length_zeros, described.endRecord_fields.1,
      resigned.request_eq]
    omega
  -- The second run sets the fields of the end record to what they are, but for the place.
  have endRecord : outcome'.endRecord = outcome.endRecord.withDirectoryOffset
      (UInt32.ofNat (outcome.endRecord.directoryOffset.toNat + request.padding)) := by
    rw [endRecord_of_describes any run' described', resigned'.request_eq, place, read, directory,
      records, endRecord_of_describes any run described]
    rfl
  rw [described'.output, Outcome.bytes, resigned'.request_eq, body, endRecord, directory, records,
    signedBytes]

/-- The output can be signed again. -/
theorem exists_run_of_resigned {looks : Stage → String → Option Sink}
    {additions : Option (List NewEntry)}
    (predictable : engine.Predictable looks (fun _ => True) additions (some request))
    (resigns : engine.Resigns request) (any : config.sizeMultiple = none)
    (run : (sign engine config input deflate).run { engine := start, output := sink } =
      .ok summary final) {outcome : Outcome config input deflate}
    (described : outcome.Describes final) (resigned : outcome.Resigned request)
    {output entries : View} {sections : Sections}
    (archive : output.IsArchive sections outcome.directory entries)
    (shows : entries.Shows (outcome.body ++ Bytes.zeros request.padding))
    (fits : outcome.endRecord.directoryOffset.toNat + request.padding < UInt32.size)
    (deflate' : Bytes → Bytes) (start' : σ) {sink' : Sink} (isOpen : sink'.Open)
    (empty : sink'.bytes = []) :
    ∃ summary' final',
      (sign engine config output deflate').run { engine := start', output := sink' } =
        .ok summary' final' := by
  have inOrder := outcome.inOrder_keptRecords_append shows
  rw [← resigned.directory_eq] at inOrder
  have showable : ∀ record ∈ outcome.directory, Showable looks entries record := by
    intro record mem
    rw [resigned.directory_eq] at mem
    obtain ⟨piece, mem', rfl⟩ := List.mem_map.1 mem
    obtain ⟨listed, isKept⟩ := List.mem_filter.1 mem'
    have mem := outcome.perm.mem_iff.1 listed
    have before := showable_of_sign predictable run outcome.archive _ (outcome.record_mem mem)
    exact outcome.showable_moved shows mem isKept before
  have nothing (new : List NewEntry) (same : additions = some new) : new = [] := by
    obtain ⟨after, gives⟩ := predictable.newEntries start
    exact resigns.addsNone new ⟨start, after, same ▸ gives⟩
  have adds := completes_addEntries_of_none predictable nothing deflate' outcome.directory
    entries.size (entries.bytes 0 entries.size)
  have body : entries.bytes 0 entries.size ++ [] =
      outcome.body ++ Bytes.zeros request.padding := by
    rw [List.append_nil, shows.contents]
  have offsetFits : (outcome.body ++ Bytes.zeros request.padding).length +
      (BlockRequest.orEmpty (some request)).size < UInt32.size := by
    rw [described.endRecord_fields.1, resigned.request_eq] at fits
    have size : (BlockRequest.orEmpty (some request)).size = request.size := rfl
    rw [List.length_append, Bytes.length_zeros, size]
    omega
  have all := completes_sign config predictable archive shows.holds inOrder (fun _ _ => trivial)
    showable adds body
  rw [List.append_nil] at all
  obtain ⟨sizeFits, countFits⟩ := archive.fits
  obtain ⟨summary', completes, -⟩ := all sizeFits countFits offsetFits
    (by rw [any]; exact Nat.mod_one _)
  obtain ⟨final', run', -, -⟩ := @completes { engine := start', output := sink' } isOpen empty
  exact ⟨summary', final', run'⟩

/-- If the output of such an engine is signed by it again, the block is replaced by itself, and the
padding before it is kept and put there a second time; so nothing changes if there is none. -/
theorem resigning_keeps_padding (resigns : engine.Resigns request)
    (isBlock : SigningBlock.IsBlock request.block) (any : config.sizeMultiple = none)
    (plain : ∀ sections, Sections.locate input = .ok sections → sections.endRecord.comment = [])
    (run : (sign engine config input deflate).run { engine := start, output := sink } =
      .ok summary final) :
    ∃ body directory endRecord, final.EndsIn directory endRecord ∧
      final.output.bytes = signedBytes body request directory endRecord ∧
      endRecord.directoryOffset.toNat = body.length + request.size ∧
      ∀ output : View, output.Shows final.output.bytes →
        (∀ deflate' start' sink' summary' final',
          (sign engine config output deflate').run { engine := start', output := sink' } =
            .ok summary' final' →
          final'.output.bytes = signedBytes (body ++ Bytes.zeros request.padding) request
            directory (endRecord.withDirectoryOffset
              (UInt32.ofNat (endRecord.directoryOffset.toNat + request.padding))) ∧
          (request.padding = 0 → final'.output.bytes = final.output.bytes)) ∧
        (∀ looks additions, engine.Predictable looks (fun _ => True) additions (some request) →
          endRecord.isZip64 = false →
          endRecord.directoryOffset.toNat + request.padding < UInt32.size →
          ∀ deflate' start' sink', sink'.Open → sink'.bytes = [] → ∃ summary' final',
            (sign engine config output deflate').run { engine := start', output := sink' } =
              .ok summary' final') := by
  obtain ⟨outcome, described⟩ := sign_eq_ok run
  have resigned := described.resigned (answersAll_of_sign run) resigns
  have comment : outcome.endRecord.comment = [] := by
    rw [endRecord_of_describes (by rw [any]; exact Nat.le_refl 1) run described]
    exact plain _ outcome.archive.located
  have written : final.output.bytes = signedBytes outcome.body request outcome.directory
      outcome.endRecord := by
    rw [described.output, Outcome.bytes, resigned.request_eq, signedBytes]
  have place := described.endRecord_fields.1
  rw [resigned.request_eq] at place
  rw [← resigned.request_eq] at isBlock
  refine ⟨outcome.body, outcome.directory, outcome.endRecord, described.endsIn, written, place, ?_⟩
  intro output shows
  have reads (small : outcome.endRecord.isZip64 = false) :=
    described.exists_isArchive shows comment small isBlock
  rw [resigned.request_eq] at reads
  refine ⟨?_, ?_⟩
  · intro deflate' start' sink' summary' final' run'
    obtain ⟨outcome', described'⟩ := sign_eq_ok run'
    have resigned' := described'.resigned (answersAll_of_sign run') resigns
    -- Whoever found sections in the output has found the end record that was written.
    have found := described.endsIn.find_of_no_comment shows comment described.isConsistent
    obtain ⟨search, small, -⟩ := Sections.locate_eq_ok_iff.1 outcome'.archive.located
    rw [found, Except.ok.injEq, Option.some.injEq, Prod.mk.injEq] at search
    rw [← search.1] at small
    obtain ⟨sections, entries, archive, entriesShow, -⟩ := reads small
    obtain ⟨-, records, rfl⟩ := outcome'.archive.unique archive
    have again := output_of_resigned any run run' described resigned described' resigned'
      entriesShow records search.1.symm
    refine ⟨again, fun none => ?_⟩
    rw [again, written, none, Nat.add_zero, UInt32.ofNat_toNat]
    exact congrArg (signedBytes · request outcome.directory outcome.endRecord)
      (List.append_nil outcome.body)
  · intro looks additions predictable small fits deflate' start' sink' isOpen empty
    obtain ⟨sections, entries, archive, entriesShow, -⟩ := reads small
    exact exists_run_of_resigned predictable resigns any run described resigned archive entriesShow
      fits deflate' start' isOpen empty

end Twice

/-! ### Three zero bytes -/

namespace Sample

/-- A signing block without pairs, with three zero bytes before it. -/
def paddedBlock : BlockRequest := { padding := 3, block := SigningBlock.encode [] }

/-- The script that keeps every entry, adds none and asks for this block. -/
def blockScript : Script where
  blocks := [some paddedBlock]

theorem blockScript_predictable :
    blockScript.engine.Predictable (fun _ _ => none) (fun _ => True) none (some paddedBlock) :=
  (Script.steady none (some paddedBlock)).predictable

theorem comment_of_located {sections : Sections} (located : Sections.locate input = .ok sections) :
    sections.endRecord.comment = [] := by
  have plain : (Sections.locate input).toOption.all (fun sections =>
      sections.endRecord.comment = []) = true := by decide +kernel
  rw [located] at plain
  exact of_decide_eq_true plain

/-- Whether the archive can be signed twice, and the two outputs are like this. -/
def signsTwice (script : Script) (p : Bytes → Bytes → Bool) : Bool :=
  succeeds script fun final =>
    match (sign script.engine {} (View.ofBytes final.output.bytes)).run { engine := {} } with
    | .ok _ final' => p final.output.bytes final'.output.bytes
    | .error .. => false

end Sample

/-- The second output has three bytes more. -/
theorem padding_accumulates :
    Sample.blockScript.engine.Resigns Sample.paddedBlock ∧
    SigningBlock.IsBlock Sample.paddedBlock.block ∧
    (∀ sections, Sections.locate Sample.input = .ok sections → sections.endRecord.comment = []) ∧
    ∃ summary final summary' final',
      (sign Sample.blockScript.engine {} Sample.input).run { engine := {} } = .ok summary final ∧
      (sign Sample.blockScript.engine {} (View.ofBytes final.output.bytes)).run { engine := {} } =
        .ok summary' final' ∧
      final'.output.bytes.length = final.output.bytes.length + 3 := by
  refine ⟨Sample.blockScript_predictable.resigns, by decide, fun _ => Sample.comment_of_located, ?_⟩
  have grows : Sample.signsTwice Sample.blockScript (fun first second =>
      second.length = first.length + 3) = true := by decide +kernel
  obtain ⟨summary, final, result, again⟩ := Sample.exists_of_succeeds grows
  split at again
  · next summary' final' result' =>
    exact ⟨summary, final, summary', final', result, result', of_decide_eq_true again⟩
  · cases again

/-- The second run goes through, and there are six zero bytes. -/
theorem sample_keeps_padding :
    ∃ summary final summary' final' body directory endRecord endRecord',
      Sample.run Sample.blockScript = .ok summary final ∧
      (sign Sample.blockScript.engine {} (View.ofBytes final.output.bytes)).run { engine := {} } =
        .ok summary' final' ∧
      final.output.bytes =
        signedBytes body Sample.paddedBlock directory endRecord ∧
      final'.output.bytes =
        signedBytes (body ++ Bytes.zeros 3) Sample.paddedBlock directory endRecord' := by
  have small : Sample.succeeds Sample.blockScript (writes fun endRecord =>
      !endRecord.isZip64 && endRecord.directoryOffset.toNat + 3 < UInt32.size) = true := by
    decide +kernel
  obtain ⟨summary, final, result, holds⟩ := Sample.exists_of_succeeds small
  have predictable := Sample.blockScript_predictable
  obtain ⟨body, directory, endRecord, ends, written, -, again⟩ :=
    resigning_keeps_padding predictable.resigns (by decide) rfl
      (fun _ => Sample.comment_of_located) result
  have holds := ends.of_writes holds
  rw [Bool.and_eq_true, Bool.not_eq_true', decide_eq_true_eq] at holds
  obtain ⟨output, succeeds⟩ := again _ (View.shows_ofBytes _)
  obtain ⟨summary', final', result'⟩ := succeeds _ _ predictable holds.1 holds.2 Deflate.deflate {}
    {} (fun _ _ _ => rfl) rfl
  exact ⟨summary, final, summary', final', body, directory, endRecord, _, result, result', written,
    (output _ _ _ _ _ result').1⟩

end ApkArchive.Signing

import ApkArchive.Proofs.Signing.Closing
import ApkArchive.Proofs.Signing.Sweep

/-!
# Runs that go through

The lemmas about successful runs say what a run has done; here it is shown that a run succeeds. On
an open output a part of a run goes through or not depending on the bytes that are there already, on
what it reads and on what the engine answers, and `Completes` says that it does, and what it returns
and writes. Parts are put together by `Completes.bind`, as `Extends` is by `Extends.trans`.
-/

namespace ApkArchive

namespace Signing

/-! ### Engines -/

/-- The question has this answer in every state. -/
def Ask.Always (question : Ask σ α) (answer : α) : Prop :=
  ∀ before, ∃ after, question before = .ok answer after

theorem Ask.always_pure (answer : α) : Ask.Always (pure answer : Ask σ α) answer :=
  fun before => ⟨before, rfl⟩

theorem Ask.Always.bind {question : Ask σ α} {next : α → Ask σ β} {a : α} {b : β}
    (h : Ask.Always question a) (rest : Ask.Always (next a) b) :
    Ask.Always (question >>= next) b := by
  intro before
  obtain ⟨mid, first⟩ := h before
  obtain ⟨after, second⟩ := rest mid
  exact ⟨after, run_bind_eq_ok_iff.2 ⟨a, mid, first, second⟩⟩

/-- An engine that looks at no data and keeps the entries of some names; it adds some entries or
none, and always asks for the same signing block or for none. -/
structure Engine.Steady (engine : Engine σ) (keeps : String → Prop)
    (additions : Option (List NewEntry)) (request : Option BlockRequest) : Prop where
  inputBlock : ∀ block, Ask.Always (engine.inputBlock block) ()
  inputEntry : ∀ name, keeps name →
    ∃ remark, Ask.Always (engine.inputEntry name) { disposition := .keep, remark }
  outputEntry : ∀ name, Ask.Always (engine.outputEntry name) none
  newEntries : Ask.Always engine.newEntries additions
  newEntriesWritten : Ask.Always engine.newEntriesWritten ()
  signingBlock : ∀ shown, Ask.Always (engine.signingBlock shown) request
  blockWritten : Ask.Always engine.blockWritten ()
  finished : Ask.Always engine.finished ()

/-- An engine that answers alike in every state, and never fails. It looks at the data of some
entries, keeps the entries of some names, adds some entries or none, and always asks for the same
signing block or for none. -/
structure Engine.Predictable (engine : Engine σ) (looks : Stage → String → Option Sink)
    (keeps : String → Prop) (additions : Option (List NewEntry)) (request : Option BlockRequest) :
    Prop where
  inputBlock : ∀ block, Ask.Always (engine.inputBlock block) ()
  inputEntry : ∀ name, keeps name → ∃ remark, Ask.Always (engine.inputEntry name)
    { disposition := .keep, inspect := looks .input name, remark }
  outputEntry : ∀ name, Ask.Always (engine.outputEntry name) (looks .output name)
  inspected : ∀ stage name, looks stage name ≠ none →
    ∀ data, Ask.Always (engine.inspected stage name data) ()
  newEntries : Ask.Always engine.newEntries additions
  newEntriesWritten : Ask.Always engine.newEntriesWritten ()
  signingBlock : ∀ shown, Ask.Always (engine.signingBlock shown) request
  blockWritten : Ask.Always engine.blockWritten ()
  finished : Ask.Always engine.finished ()

theorem Engine.Steady.predictable {engine : Engine σ} {keeps : String → Prop}
    {additions : Option (List NewEntry)} {request : Option BlockRequest}
    (steady : engine.Steady keeps additions request) :
    engine.Predictable (fun _ _ => none) keeps additions request where
  inputBlock := steady.inputBlock
  inputEntry := steady.inputEntry
  outputEntry := steady.outputEntry
  inspected _ _ looks := absurd rfl looks
  newEntries := steady.newEntries
  newEntriesWritten := steady.newEntriesWritten
  signingBlock := steady.signingBlock
  blockWritten := steady.blockWritten
  finished := steady.finished

/-! ### Parts of a run -/

/-- On an open output that has the bytes `front`, the part of a run returns `a` and writes
`written`, and the output stays open. -/
def Run.Completes (x : Run σ α) (front : Bytes) (a : α) (written : Bytes) : Prop :=
  ∀ ⦃s : Session σ⦄, s.output.Open → s.output.bytes = front →
    ∃ s', x s = .ok a s' ∧ s'.output.Open ∧ s'.output.bytes = front ++ written

namespace Run.Completes

variable {x : Run σ α} {f : α → Run σ β} {front first second : Bytes} {a : α} {b : β}

theorem pure (front : Bytes) (a : α) : Completes (pure a : Run σ α) front a [] :=
  fun s isOpen same => ⟨s, rfl, isOpen, by rw [same, List.append_nil]⟩

theorem bind (h : Completes x front a first) (rest : Completes (f a) (front ++ first) b second) :
    Completes (x >>= f) front b (first ++ second) := by
  intro s isOpen same
  obtain ⟨mid, run₁, isOpen₁, wrote₁⟩ := h isOpen same
  obtain ⟨s', run₂, isOpen₂, wrote₂⟩ := rest isOpen₁ wrote₁
  refine ⟨s', run_bind_eq_ok_iff.2 ⟨a, mid, run₁, run₂⟩, isOpen₂, ?_⟩
  rw [wrote₂, List.append_assoc]

/-- After a part that writes nothing. -/
theorem andThen (h : Completes x front a []) (rest : Completes (f a) front b second) :
    Completes (x >>= f) front b second := by
  have rest : Completes (f a) (front ++ []) b second := by rwa [List.append_nil]
  exact h.bind rest

/-- Before a part that writes nothing. -/
theorem bind_silent (h : Completes x front a first)
    (rest : Completes (f a) (front ++ first) b []) : Completes (x >>= f) front b first := by
  have all := h.bind rest
  rwa [List.append_nil] at all

theorem of_state {f : Session σ → Run σ β}
    (h : ∀ s, s.output.bytes = front → Completes (f s) front b second) :
    Completes (get >>= f) front b second :=
  fun s isOpen same => h s same isOpen same

theorem position : Completes (position : Run σ Nat) front front.length [] := by
  refine of_state fun s same => ?_
  rw [← same, ← Sink.position_eq]
  exact pure _ _

theorem ofExcept {result : Except Error α} (ok : result = .ok a) :
    Completes (ofExcept result : Run σ α) front a [] := by
  rw [ok]
  exact pure front a

theorem note (notice : Notice) : Completes (note notice : Run σ Unit) front () [] :=
  fun _ isOpen same => ⟨_, rfl, isOpen, by rw [same.symm, List.append_nil]⟩

theorem note? (notice : Option Notice) : Completes (note? notice : Run σ Unit) front () [] := by
  cases notice with
  | none => exact pure front ()
  | some notice => exact note notice

theorem emit {action : Emit α} (delivers : Sink.Delivers action a first) :
    Completes (emit action : Run σ α) front a first := by
  rintro ⟨engine, output, calls, notices⟩ isOpen same
  obtain ⟨sink, run, isOpen', wrote⟩ := delivers isOpen
  refine ⟨⟨engine, sink, calls, notices⟩, ?_, isOpen', by rw [wrote, same]⟩
  have run : action.run output = .ok a sink := run
  unfold Run.emit
  dsimp only
  rw [run]

theorem ask {question : Ask σ α} {call : Option α → Call} (always : Ask.Always question a) :
    Completes (ask question call) front a [] := by
  rintro ⟨engine, output, calls, notices⟩ isOpen same
  obtain ⟨after, run⟩ := always engine
  have run : question.run engine = .ok a after := run
  refine ⟨⟨after, output, calls.push (call (some a), output.position), notices⟩, ?_, isOpen, ?_⟩
  · unfold Run.ask
    dsimp only
    rw [run]
  · rw [same.symm, List.append_nil]

/-- A guard that lets everything pass. -/
theorem guard {c : Prop} [Decidable c] {error : Error} (passes : ¬ c)
    (rest : Completes x front a first) :
    Completes (if c then (do throw error; x) else x) front a first := by
  rwa [if_neg passes]

end Run.Completes

end Signing
end ApkArchive

import ApkArchive.Proofs.Signing.Calls

/-!
# Every answer is the engine's

A run writes down each call to the engine together with the answer. It makes up no answer: whatever
was written down as an answer, the engine has given in some state of its own. So what is known of
the answers of an engine is known of the calls of its runs.
-/

namespace ApkArchive.Signing

/-- The answer is given in some state. -/
def Ask.Gives (question : Ask σ α) (answer : α) : Prop :=
  ∃ before after, question before = .ok answer after

namespace Engine

variable (engine : Engine σ)

/-- The engine may have been called like this: if there is an answer, it is one that it gives. -/
def Answers : Call → Prop
  | .inputEntry name (some decision) => Ask.Gives (engine.inputEntry name) decision
  | .outputEntry name (some sink) => Ask.Gives (engine.outputEntry name) sink
  | .newEntries (some entries) => Ask.Gives engine.newEntries entries
  | .signingBlock shown (some request) => Ask.Gives (engine.signingBlock shown) request
  | _ => True

/-- All calls of the session are calls of the engine. -/
def AnswersAll (session : Session σ) : Prop :=
  ∀ call ∈ session.calls.toList, engine.Answers call.1

end Engine

/-- A question is written down with an answer that the engine gives to it. -/
theorem Engine.Poses.answers {engine : Engine σ} {question : Ask σ α} {form : Option α → Call}
    (poses : engine.Poses question form) {answer : α} (gives : Ask.Gives question answer) :
    engine.Answers (form (some answer)) := by
  cases poses with
  | inputEntry | outputEntry | newEntries | signingBlock => exact gives
  | _ => exact trivial

theorem Engine.Replays.answers {engine : Engine σ} {start last : σ} {calls : List Call}
    (replays : engine.Replays start calls last) : ∀ call ∈ calls, engine.Answers call := by
  induction replays with
  | nil => exact fun _ mem => nomatch mem
  | snoc before poses answered ih =>
    intro call mem
    rcases List.mem_append.1 mem with old | new
    · exact ih call old
    · rw [List.mem_singleton.1 new]
      exact poses.answers ⟨_, _, answered⟩

/-- All calls of a run were answered by its engine. -/
theorem answersAll_of_sign {engine : Engine σ} {config : Config} {input : View}
    {deflate : Bytes → Bytes} {start : σ} {sink : Sink} {summary : Summary} {final : Session σ}
    (run : (sign engine config input deflate).run { engine := start, output := sink } =
      .ok summary final) : engine.AnswersAll final := by
  obtain ⟨archive, stands, complete, ends⟩ :=
    (ensures_sign engine config input deflate start sink).ok rfl run
  intro call mem
  exact stands.replays.answers call.1 (List.mem_map_of_mem mem)

/-! ### What was decided, supplied and asked for -/

namespace Engine.AnswersAll

variable {engine : Engine σ} {final : Session σ}

theorem gives_of_decisions (all : engine.AnswersAll final) {name : String}
    {disposition : Disposition} (mem : (name, disposition) ∈ final.decisions) :
    ∃ decision, Ask.Gives (engine.inputEntry name) decision ∧
      decision.disposition = disposition := by
  obtain ⟨call, mem', decided⟩ := List.mem_filterMap.1 mem
  have answers := all call mem'
  match call, answers, decided with
  | (.inputEntry _ (some decision), _), answers, rfl => exact ⟨decision, answers, rfl⟩

theorem gives_of_supplies (all : engine.AnswersAll final) {entry : NewEntry}
    (mem : entry ∈ final.supplies) :
    ∃ entries, Ask.Gives engine.newEntries (some entries) ∧ entry ∈ entries := by
  obtain ⟨entries, mem', mem⟩ := List.mem_flatten.1 mem
  obtain ⟨call, mem', supplied⟩ := List.mem_filterMap.1 mem'
  have answers := all call mem'
  match call, answers, supplied with
  | (.newEntries (some (some _)), _), answers, rfl => exact ⟨_, answers, mem⟩

theorem gives_of_rounds (all : engine.AnswersAll final) {shown : Unsigned}
    {answer : Option BlockRequest} (mem : (shown, some answer) ∈ final.rounds) :
    Ask.Gives (engine.signingBlock shown) answer := by
  obtain ⟨call, mem', asked⟩ := List.mem_filterMap.1 mem
  have answers := all call mem'
  match call, answers, asked with
  | (.signingBlock _ (some _), _), answers, rfl => exact answers

end Engine.AnswersAll

end ApkArchive.Signing

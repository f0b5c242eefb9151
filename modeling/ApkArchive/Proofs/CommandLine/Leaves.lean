import ApkArchive.CommandLine.FileTree
import ApkArchive.CommandLine.Program

/-!
# What a part of the program leaves behind

A part of the program works on the files of a tree and succeeds or fails. `Leaves` says what the
files are like afterwards in both cases, whatever the program has said before. There is one law for
every way of making a part of the program out of others; a part that only talks leaves the files as
they are.
-/

namespace ApkArchive.CommandLine.Program

/-- On the files of a tree, a part of the program leaves files with `Q` if it succeeds, and files
with `E` if it fails. -/
def Leaves {α : Type} (tree : FileTree) (part : Program (StateM FileTree) α)
    (Q : α → FileTree → Prop) (E : FileTree → Prop) : Prop :=
  ∀ said result said' after, (part.run.run said).run tree = ((result, said'), after) →
    match result with
    | .ok a => Q a after
    | .error _ => E after

namespace Leaves

variable {α β : Type} {tree : FileTree} {Q : α → FileTree → Prop} {E : FileTree → Prop}

theorem of_run {part : Program (StateM FileTree) α} {a : α} {after : FileTree}
    (succeeds : ∀ said, ∃ said', (part.run.run said).run tree = ((.ok a, said'), after))
    (post : Q a after) : Leaves tree part Q E := by
  intro said result said' after' run
  obtain ⟨_, done⟩ := succeeds said
  cases done.symm.trans run
  exact post

/-! ### Parts in a row -/

theorem pure {a : α} (post : Q a tree) : Leaves tree (pure a : Program (StateM FileTree) α) Q E :=
  of_run (fun said => ⟨said, rfl⟩) post

theorem throw {failure : Failure} (post : E tree) :
    Leaves tree (throw failure : Program (StateM FileTree) α) Q E := by
  intro said result said' after run
  cases run
  exact post

/-- The second part starts with the files that the first one leaves. -/
theorem bind {part : Program (StateM FileTree) α} {rest : α → Program (StateM FileTree) β}
    {R : β → FileTree → Prop} (first : Leaves tree part Q E)
    (second : ∀ a mid, Q a mid → Leaves mid (rest a) R E) :
    Leaves tree (part >>= rest) R E := by
  intro said result said' after run
  rw [ExceptT.run_bind, StateT.run_bind, StateT.run_bind] at run
  rcases here : (part.run.run said).run tree with ⟨⟨result, between⟩, mid⟩
  have post := first _ _ _ _ here
  rw [here] at run
  cases result with
  | ok a => exact second a mid post _ _ _ _ run
  | error failure =>
    cases run
    exact post

/-- The handler starts with the files that the failed part leaves. -/
theorem tryCatch {part : Program (StateM FileTree) α}
    {handler : Failure → Program (StateM FileTree) α} {F : FileTree → Prop}
    (body : Leaves tree part Q F)
    (handled : ∀ failure mid, F mid → Leaves mid (handler failure) Q E) :
    Leaves tree (tryCatch part handler) Q E := by
  intro said result said' after run
  rw [ExceptT.run_tryCatch, StateT.run_bind, StateT.run_bind] at run
  rcases here : (part.run.run said).run tree with ⟨⟨result, between⟩, mid⟩
  have post := body _ _ _ _ here
  rw [here] at run
  cases result with
  | ok a =>
    cases run
    exact post
  | error failure => exact handled failure mid post _ _ _ _ run

/-- A guard stops the program with the files as they are. -/
theorem guard {c : Prop} [Decidable c] {failure : Failure} {rest : Program (StateM FileTree) α}
    (stopped : c → E tree) (goes_on : ¬ c → Leaves tree rest Q E) :
    Leaves tree (do
      if c then MonadExcept.throw failure
      rest) Q E := by
  by_cases holds : c
  · simp only [holds, if_true]
    exact bind (Q := fun _ _ => False) (throw (stopped holds)) fun _ _ never => never.elim
  · simp only [holds, if_false]
    exact goes_on holds

/-! ### Operations on files -/

theorem liftM {operation : StateM FileTree α}
    (post : Q (operation.run tree).1 (operation.run tree).2) :
    Leaves tree (liftM operation) Q E :=
  of_run (fun said => ⟨said, rfl⟩) post

/-- What an operation does to the files it does whether it is reported to fail or not. -/
theorem perform {blame : StorageFault → Failure}
    {operation : StateM FileTree (Except StorageFault α)}
    (ok : ∀ a after, operation.run tree = (.ok a, after) → Q a after)
    (error : ∀ fault after, operation.run tree = (.error fault, after) → E after) :
    Leaves tree (perform blame operation) Q E := by
  rcases run : operation.run tree with ⟨result, mid⟩
  refine bind (liftM (Q := fun a after => (a, after) = operation.run tree) rfl) ?_
  intro found after same
  cases found with
  | ok a => exact pure (ok a after same.symm)
  | error fault => exact throw (error fault after same.symm)

end Leaves

/-! ### Talk -/

/-- A part of the program that succeeds and leaves the files as they are. -/
def Silent (talk : Program (StateM FileTree) Unit) : Prop :=
  ∀ ⦃tree : FileTree⦄ {Q : Unit → FileTree → Prop} {E : FileTree → Prop},
    Q () tree → Leaves tree talk Q E

theorem Silent.bind {α : Type} {tree : FileTree} {talk : Program (StateM FileTree) Unit}
    {rest : Program (StateM FileTree) α} {Q : α → FileTree → Prop} {E : FileTree → Prop}
    (silent : Silent talk) (second : Leaves tree rest Q E) :
    Leaves tree (talk >>= fun _ => rest) Q E :=
  Leaves.bind (Q := fun _ mid => mid = tree) (silent rfl) fun _ _ same => same ▸ second

end ApkArchive.CommandLine.Program

import ApkArchive.Proofs.Storage.Stream

/-!
# What a computation ensures, however it ends

The lemmas about successful runs say nothing about a run that fails. `Ensures` speaks of both: from
a state with `P`, the computation ends with `Q` if it succeeds and with `E` if it fails. The failure
condition of a sequence is that of its parts, so it is stated once and for all, and every part has
only to keep it.
-/

namespace ApkArchive

/-- From a state with `P` the computation ends with `Q` if it succeeds, and with `E` if it fails. -/
def Ensures (P : σ → Prop) (x : EStateM ε σ α) (Q : α → σ → Prop) (E : ε → σ → Prop) : Prop :=
  ∀ ⦃s⦄, P s →
    match x s with
    | .ok a s' => Q a s'
    | .error e s' => E e s'

namespace Ensures

variable {P : σ → Prop} {E : ε → σ → Prop}

theorem ok {x : EStateM ε σ α} {Q : α → σ → Prop} (h : Ensures P x Q E) {s s' : σ} {a : α}
    (pre : P s) (run : x s = .ok a s') : Q a s' := by
  have post := h pre
  rwa [run] at post

theorem error {x : EStateM ε σ α} {Q : α → σ → Prop} (h : Ensures P x Q E) {s s' : σ} {e : ε}
    (pre : P s) (run : x s = .error e s') : E e s' := by
  have post := h pre
  rwa [run] at post

/-- What is shown of every way in which the computation can end. -/
theorem of_runs {x : EStateM ε σ α} {Q : α → σ → Prop}
    (ok : ∀ s a s', P s → x s = .ok a s' → Q a s')
    (error : ∀ s e s', P s → x s = .error e s' → E e s') : Ensures P x Q E := by
  intro s pre
  cases run : x s with
  | ok a s' => exact ok s a s' pre run
  | error e s' => exact error s e s' pre run

/-- More may be known before, and less may be asked for afterwards. -/
theorem weaken {x : EStateM ε σ α} {P' : σ → Prop} {Q Q' : α → σ → Prop} {E' : ε → σ → Prop}
    (h : Ensures P x Q E) (pre : ∀ s, P' s → P s) (post : ∀ a s, Q a s → Q' a s)
    (fails : ∀ e s, E e s → E' e s) : Ensures P' x Q' E' :=
  of_runs (fun _ _ _ here run => post _ _ (h.ok (pre _ here) run))
    fun _ _ _ here run => fails _ _ (h.error (pre _ here) run)

theorem pre {x : EStateM ε σ α} {P' : σ → Prop} {Q : α → σ → Prop} (h : Ensures P x Q E)
    (imp : ∀ s, P' s → P s) : Ensures P' x Q E := fun s here => h (imp s here)

theorem of_exists {x : EStateM ε σ α} {P : κ → σ → Prop} {Q : α → σ → Prop}
    (h : ∀ k, Ensures (P k) x Q E) : Ensures (fun s => ∃ k, P k s) x Q E :=
  fun _ ⟨k, here⟩ => h k here

/-- What is known before the run, whatever the state, can be used. -/
theorem of_and {x : EStateM ε σ α} {p : Prop} {Q : α → σ → Prop} (h : p → Ensures P x Q E) :
    Ensures (fun s => P s ∧ p) x Q E := fun _ ⟨here, known⟩ => h known here

theorem post {x : EStateM ε σ α} {Q Q' : α → σ → Prop} (h : Ensures P x Q E)
    (imp : ∀ a s, Q a s → Q' a s) : Ensures P x Q' E :=
  h.weaken (fun _ pre => pre) imp fun _ _ fails => fails

/-- What is known of the successful runs can be added. -/
theorem also {x : EStateM ε σ α} {Q R : α → σ → Prop} (h : Ensures P x Q E)
    (ok : ∀ s a s', P s → x s = .ok a s' → R a s') : Ensures P x (fun a s => Q a s ∧ R a s) E :=
  of_runs (fun _ _ _ here run => ⟨h.ok here run, ok _ _ _ here run⟩)
    fun _ _ _ here run => h.error here run

theorem pure (a : α) : Ensures P (pure a : EStateM ε σ α) (fun b s => b = a ∧ P s) E :=
  fun _ pre => ⟨rfl, pre⟩

theorem throw {e : ε} {Q : α → σ → Prop} (fails : ∀ s, P s → E e s) :
    Ensures P (throw e : EStateM ε σ α) Q E := fun s pre => fails s pre

theorem bind {x : EStateM ε σ α} {f : α → EStateM ε σ β} {Q : α → σ → Prop} {R : β → σ → Prop}
    (first : Ensures P x Q E) (rest : ∀ a, Ensures (Q a) (f a) R E) : Ensures P (x >>= f) R E := by
  intro s pre
  have here := first pre
  show match EStateM.bind x f s with
    | .ok b s' => R b s'
    | .error e s' => E e s'
  unfold EStateM.bind
  cases run : x s with
  | ok a mid =>
    rw [run] at here
    exact rest a here
  | error e mid =>
    rw [run] at here
    exact here

/-- The rest may use what is known of the results that are possible. -/
theorem ofExcept_bind {result : Except ε α} {f : α → EStateM ε σ β} {R : β → σ → Prop}
    (fails : ∀ e s, result = .error e → P s → E e s)
    (rest : ∀ a, result = .ok a → Ensures P (f a) R E) : Ensures P (ofExcept result >>= f) R E := by
  cases result with
  | ok a => exact rest a rfl
  | error e => exact fun s pre => fails e s rfl pre

theorem get_bind {f : σ → EStateM ε σ β} {R : β → σ → Prop}
    (rest : ∀ s, P s → Ensures (fun s' => s' = s) (f s) R E) : Ensures P (get >>= f) R E :=
  fun s pre => rest s pre rfl

theorem ite {c : Prop} [Decidable c] {x y : EStateM ε σ α} {Q : α → σ → Prop}
    (first : c → Ensures P x Q E) (second : ¬ c → Ensures P y Q E) :
    Ensures P (if c then x else y) Q E := by
  split
  · next holds => exact first holds
  · next fails => exact second fails

/-- What stands after a guard is run if the guard lets it pass. -/
theorem guard {c : Prop} [Decidable c] {e : ε} {x : EStateM ε σ α} {Q : α → σ → Prop}
    (fails : ∀ s, c → P s → E e s) (rest : ¬ c → Ensures P x Q E) :
    Ensures P (if c then (do MonadExcept.throw e; x) else x) Q E :=
  ite (fun stopped s pre => fails s stopped pre) rest

/-- A loop keeps an invariant that speaks of what is left to do. -/
theorem foldlM {step : β → α → EStateM ε σ β} {I : List α → β → σ → Prop}
    (keeps : ∀ a rest b, Ensures (I (a :: rest) b) (step b a) (fun b' => I rest b') E) (l : List α)
    (b : β) : Ensures (I l b) (l.foldlM step b) (fun b' => I [] b') E := by
  induction l generalizing b with
  | nil => exact (pure b).post fun _ _ post => post.1 ▸ post.2
  | cons a rest ih =>
    rw [List.foldlM_cons]
    exact (keeps a rest b).bind fun b' => ih b'

end Ensures

/-- A write that is refused is refused by the storage, and leaves nothing behind. -/
theorem Sink.ensures_write (front chunk : Bytes) :
    Ensures (fun sink => sink.bytes = front) (write chunk)
      (fun _ sink => sink.bytes = front ++ chunk)
      (fun error sink => (∃ fault, error = .storage fault) ∧ chunk ≠ [] ∧ sink.bytes = front) := by
  refine Ensures.of_runs (fun sink _ sink' before run => ?_) fun sink error sink' before run => ?_
  · rw [(emits_write chunk run).2, before]
  · unfold write at run
    split at run
    · cases run
    next some_left =>
    split at run
    split at run
    · next fault _ =>
      cases run
      exact ⟨⟨fault, rfl⟩, fun empty => some_left (by simp [empty]), before⟩
    · cases run

end ApkArchive

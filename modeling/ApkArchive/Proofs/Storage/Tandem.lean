import ApkArchive.Proofs.Storage.Ensures

/-!
# Two computations side by side

What one computation does in one state can be compared with what another one does in another state.
Both are taken apart together, and as long as the first one goes on, so must the second one:

    Pairs R x y O: from states with R, the outcomes of x and y are in O

Where the first one fails there is nothing more to compare, if O holds of all such failures.
-/

namespace ApkArchive

/-- From related states the two computations have related outcomes. -/
def Pairs (R : σ → τ → Prop) (x : EStateM ε σ α) (y : EStateM ε' τ β)
    (O : EStateM.Result ε σ α → EStateM.Result ε' τ β → Prop) : Prop :=
  ∀ ⦃s t⦄, R s t → O (x s) (y t)

/-- If the first computation has succeeded, so has the second one, and results and states are in
`Q`. If the first one has failed, it has done so in `E`. -/
inductive Tandem (Q : α → β → σ → τ → Prop) (E : σ → Prop) :
    EStateM.Result ε σ α → EStateM.Result ε' τ β → Prop
  | ok {a : α} {b : β} {s : σ} {t : τ} (post : Q a b s t) : Tandem Q E (.ok a s) (.ok b t)
  | error {e : ε} {s : σ} (other : EStateM.Result ε' τ β) (fails : E s) :
      Tandem Q E (.error e s) other

/-- Outcomes are related if the first one is a failure in `E`. -/
def Excuses (E : σ → Prop) (O : EStateM.Result ε σ α → EStateM.Result ε' τ β → Prop) : Prop :=
  ∀ ⦃e s⦄ other, E s → O (.error e s) other

theorem Tandem.excuses {Q : α → β → σ → τ → Prop} {E : σ → Prop} :
    Excuses E (Tandem Q E : EStateM.Result ε σ α → EStateM.Result ε' τ β → Prop) :=
  fun _ _ => .error

namespace Pairs

variable {R : σ → τ → Prop} {E : σ → Prop}

/-- What happens if the first computation succeeds. -/
theorem ok {x : EStateM ε σ α} {y : EStateM ε' τ β} {Q : α → β → σ → τ → Prop}
    (h : Pairs R x y (Tandem Q E)) {s s' : σ} {t : τ} {a : α} (related : R s t)
    (run : x s = .ok a s') : ∃ b t', y t = .ok b t' ∧ Q a b s' t' := by
  have outcomes := h related
  rw [run] at outcomes
  cases other : y t with
  | ok b t' =>
    rw [other] at outcomes
    cases outcomes with
    | ok post => exact ⟨b, t', rfl, post⟩
  | error e t' =>
    rw [other] at outcomes
    cases outcomes

theorem error {x : EStateM ε σ α} {y : EStateM ε' τ β} {Q : α → β → σ → τ → Prop}
    (h : Pairs R x y (Tandem Q E)) {s s' : σ} {t : τ} {e : ε} (related : R s t)
    (run : x s = .error e s') : E s' := by
  have outcomes := h related
  rw [run] at outcomes
  cases outcomes with
  | error other failed => exact failed

theorem of_runs {x : EStateM ε σ α} {y : EStateM ε' τ β} {Q : α → β → σ → τ → Prop}
    (ok : ∀ s t a s', R s t → x s = .ok a s' → ∃ b t', y t = .ok b t' ∧ Q a b s' t')
    (error : ∀ s t e s', R s t → x s = .error e s' → E s') : Pairs R x y (Tandem Q E) := by
  intro s t related
  cases run : x s with
  | ok a s' =>
    obtain ⟨b, t', other, post⟩ := ok s t a s' related run
    rw [other]
    exact .ok post
  | error e s' => exact .error _ (error s t e s' related run)

theorem weaken {x : EStateM ε σ α} {y : EStateM ε' τ β} {Q Q' : α → β → σ → τ → Prop}
    {E' : σ → Prop} (h : Pairs R x y (Tandem Q E)) (post : ∀ a b s t, Q a b s t → Q' a b s t)
    (fails : ∀ s, E s → E' s) : Pairs R x y (Tandem Q' E') := by
  refine of_runs (fun s t a s' related run => ?_) fun s t e s' related run => ?_
  · obtain ⟨b, t', other, holds⟩ := h.ok related run
    exact ⟨b, t', other, post a b s' t' holds⟩
  · exact fails s' (h.error related run)

/-- What is known of the successful runs of the first computation can be added. -/
theorem also {x : EStateM ε σ α} {y : EStateM ε' τ β} {Q : α → β → σ → τ → Prop} {P : σ → Prop}
    {S : α → σ → Prop} (h : Pairs R x y (Tandem Q E))
    (ok : ∀ s a s', P s → x s = .ok a s' → S a s') :
    Pairs (fun s t => R s t ∧ P s) x y (Tandem (fun a b s t => Q a b s t ∧ S a s) E) := by
  refine of_runs (fun s t a s' related run => ?_) fun s t e s' related run => ?_
  · obtain ⟨b, t', other, post⟩ := h.ok related.1 run
    exact ⟨b, t', other, post, ok s a s' related.2 run⟩
  · exact h.error related.1 run

theorem pure {a : α} {b : β} {Q : α → β → σ → τ → Prop} (post : ∀ s t, R s t → Q a b s t) :
    Pairs R (pure a : EStateM ε σ α) (pure b : EStateM ε' τ β) (Tandem Q E) :=
  fun s t related => .ok (post s t related)

section Outcomes

variable {O : EStateM.Result ε σ β → EStateM.Result ε' τ γ → Prop} (excuses : Excuses E O)
include excuses

theorem throw {e : ε} {y : EStateM ε' τ γ} (fails : ∀ s t, R s t → E s) :
    Pairs R (throw e) y O := fun s t related => excuses _ (fails s t related)

theorem bind {x : EStateM ε σ α} {y : EStateM ε' τ δ} {f : α → EStateM ε σ β}
    {g : δ → EStateM ε' τ γ} {Q : α → δ → σ → τ → Prop} (first : Pairs R x y (Tandem Q E))
    (rest : ∀ a b, Pairs (Q a b) (f a) (g b) O) : Pairs R (x >>= f) (y >>= g) O := by
  intro s t related
  show O (EStateM.bind x f s) (EStateM.bind y g t)
  unfold EStateM.bind
  cases run : x s with
  | ok a s' =>
    obtain ⟨b, t', other, post⟩ := first.ok related run
    rw [other]
    exact rest a b post
  | error e s' => exact excuses _ (first.error related run)

/-- If the first result is no error, neither is the second one. -/
theorem ofExcept_bind {result : Except ε α} {result' : Except ε' δ} {f : α → EStateM ε σ β}
    {g : δ → EStateM ε' τ γ} (fails : ∀ s t, R s t → E s)
    (rest : ∀ a, result = .ok a → ∃ b, result' = .ok b ∧ Pairs R (f a) (g b) O) :
    Pairs R (ofExcept result >>= f) (ofExcept result' >>= g) O := by
  cases same : result with
  | ok a =>
    obtain ⟨b, rfl, goes⟩ := rest a same
    exact goes
  | error e => exact throw excuses fails

/-- If the first guard lets pass, so does the second one. -/
theorem guard {c c' : Prop} [Decidable c] [Decidable c'] {e : ε} {e' : ε'} {x : EStateM ε σ β}
    {y : EStateM ε' τ γ} (fails : ∀ s t, R s t → E s) (passes : ¬ c → ¬ c')
    (rest : ¬ c → Pairs R x y O) :
    Pairs R (if c then (do MonadExcept.throw e; x) else x)
      (if c' then (do MonadExcept.throw e'; y) else y) O := by
  by_cases stopped : c
  · rw [if_pos stopped]
    exact throw excuses fails
  · rw [if_neg stopped, if_neg (passes stopped)]
    exact rest stopped

end Outcomes

theorem ite {c : Prop} [Decidable c] {x x' : EStateM ε σ α} {y y' : EStateM ε' τ β}
    {O : EStateM.Result ε σ α → EStateM.Result ε' τ β → Prop} (first : c → Pairs R x y O)
    (second : ¬ c → Pairs R x' y' O) :
    Pairs R (if c then x else x') (if c then y else y') O := by
  split
  · next holds => exact first holds
  · next fails => exact second fails

theorem get_bind {f : σ → EStateM ε σ α} {g : τ → EStateM ε' τ β}
    {O : EStateM.Result ε σ α → EStateM.Result ε' τ β → Prop}
    (rest : ∀ s t, R s t → Pairs (fun s' t' => s' = s ∧ t' = t) (f s) (g t) O) :
    Pairs R (get >>= f) (get >>= g) O := fun s t related => rest s t related ⟨rfl, rfl⟩

/-- Two loops over lists whose members have the same keys keep a common invariant. -/
theorem foldlM {step : β → α → EStateM ε σ β} {step' : γ → δ → EStateM ε' τ γ} {key : α → κ}
    {key' : δ → κ} {I : β → γ → σ → τ → Prop}
    (keeps : ∀ b b' a a', key a = key' a' →
      Pairs (I b b') (step b a) (step' b' a') (Tandem I E))
    {l : List α} {l' : List δ} (same : l.map key = l'.map key') (b : β) (b' : γ) :
    Pairs (I b b') (l.foldlM step b) (l'.foldlM step' b') (Tandem I E) := by
  induction l generalizing l' b b' with
  | nil =>
    obtain rfl := List.map_eq_nil_iff.1 same.symm
    exact pure fun s t related => related
  | cons a rest ih =>
    cases l' with
    | nil => cases same
    | cons a' rest' =>
      obtain ⟨first, others⟩ := List.cons.inj same
      rw [List.foldlM_cons, List.foldlM_cons]
      exact bind Tandem.excuses (keeps b b' a a' first) fun next next' => ih others next next'

end Pairs
end ApkArchive

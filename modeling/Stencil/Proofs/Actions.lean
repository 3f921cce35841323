import Stencil.Proofs.Result

/-!
# Runs of actions

An action changes a state and may fail; what was done before the failure remains.

* `Runs`: an action, from a state to its outcome and the state after it.
* `runs_bind`: one action after another.
-/

namespace Stencil

variable {ε σ α β : Type}

/-- **A run of an action**: from a state to an outcome and a state. -/
def Runs (x : ExceptT ε (StateM σ) α) (s : σ) (r : Except ε α) (s' : σ) : Prop :=
  x.run.run s = (r, s')

/-- An action runs to the state that it leaves. -/
theorem runs_of_fst {x : ExceptT ε (StateM σ) α} {s : σ} {r : Except ε α}
    (h : (x.run.run s).1 = r) : Runs x s r (x.run.run s).2 := Prod.ext h rfl

/-- What an action gives, if it is known. -/
theorem runs_iff_of_run {x : ExceptT ε (StateM σ) α} {s m s' : σ} {q r : Except ε α}
    (h : x.run.run s = (q, m)) : Runs x s r s' ↔ r = q ∧ s' = m := by
  rw [Runs, h, Prod.mk.injEq, eq_comm, @eq_comm _ m]

theorem runs_pure {a : α} {s s' : σ} {r : Except ε α} :
    Runs (pure a : ExceptT ε (StateM σ) α) s r s' ↔ r = .ok a ∧ s' = s :=
  runs_iff_of_run rfl

theorem runs_throw {e : ε} {s s' : σ} {r : Except ε α} :
    Runs (throw e : ExceptT ε (StateM σ) α) s r s' ↔ r = .error e ∧ s' = s :=
  runs_iff_of_run rfl

theorem runs_ofExcept {x r : Except ε α} {s s' : σ} :
    Runs (MonadExcept.ofExcept x : ExceptT ε (StateM σ) α) s r s' ↔ r = x ∧ s' = s := by
  cases x with
  | error e => exact runs_throw
  | ok a => exact runs_pure

theorem runs_modify {f : σ → σ} {s s' : σ} {r : Except ε PUnit} :
    Runs (modify f : ExceptT ε (StateM σ) PUnit) s r s' ↔ r = .ok () ∧ s' = f s :=
  runs_iff_of_run rfl

variable {x : ExceptT ε (StateM σ) α} {f : α → ExceptT ε (StateM σ) β} {s m s' : σ}
  {r : Except ε β}

/-- After an action that succeeds. -/
theorem runs_bind_of_ok {a : α} (h : x.run.run s = (.ok a, m)) :
    Runs (x >>= f) s r s' ↔ Runs (f a) m r s' := by
  unfold Runs
  rw [ExceptT.run_bind, StateT.run_bind, h]
  exact Iff.rfl

/-- After an action that fails. -/
theorem runs_bind_of_error {e : ε} (h : x.run.run s = (.error e, m)) :
    Runs (x >>= f) s r s' ↔ r = .error e ∧ s' = m := by
  refine runs_iff_of_run ?_
  rw [ExceptT.run_bind, StateT.run_bind, h]
  rfl

/-- **One action after another**: the second starts where the first ends, unless that fails. -/
theorem runs_bind :
    Runs (x >>= f) s r s' ↔
      (∃ a m, Runs x s (.ok a) m ∧ Runs (f a) m r s') ∨
      ∃ e, Runs x s (.error e) s' ∧ r = .error e := by
  rcases h : x.run.run s with ⟨e | a, m⟩
  · simp only [runs_bind_of_error h, runs_iff_of_run h]
    constructor
    · rintro ⟨rfl, rfl⟩
      exact .inr ⟨e, ⟨rfl, rfl⟩, rfl⟩
    · rintro (⟨_, _, ⟨he, -⟩, -⟩ | ⟨_, ⟨he, rfl⟩, rfl⟩)
      · cases he
      · cases he
        exact ⟨rfl, rfl⟩
  · simp only [runs_bind_of_ok h, runs_iff_of_run h]
    constructor
    · intro hr
      exact .inl ⟨a, m, ⟨rfl, rfl⟩, hr⟩
    · rintro (⟨_, _, ⟨ha, rfl⟩, hr⟩ | ⟨_, ⟨ha, -⟩, -⟩)
      · cases ha
        exact hr
      · cases ha

theorem runs_get_bind {f : σ → ExceptT ε (StateM σ) β} :
    Runs (get >>= f) s r s' ↔ Runs (f s) s r s' :=
  runs_bind_of_ok rfl

theorem runs_modify_bind {g : σ → σ} {f : PUnit → ExceptT ε (StateM σ) β} :
    Runs (modify g >>= f) s r s' ↔ Runs (f ()) (g s) r s' :=
  runs_bind_of_ok rfl

theorem runs_ofExcept_bind {x : Except ε α} :
    Runs ((MonadExcept.ofExcept x : ExceptT ε (StateM σ) α) >>= f) s r s' ↔
      (∃ a, x = .ok a ∧ Runs (f a) s r s') ∨ ∃ e, x = .error e ∧ r = .error e ∧ s' = s := by
  simp only [runs_bind, runs_ofExcept]
  constructor
  · rintro (⟨a, _, ⟨h, rfl⟩, hr⟩ | ⟨e, ⟨h, rfl⟩, rfl⟩)
    · exact .inl ⟨a, h.symm, hr⟩
    · exact .inr ⟨e, h.symm, rfl, rfl⟩
  · rintro (⟨a, rfl, hr⟩ | ⟨e, rfl, rfl, rfl⟩)
    · exact .inl ⟨a, s, ⟨rfl, rfl⟩, hr⟩
    · exact .inr ⟨e, ⟨rfl, rfl⟩, rfl⟩

end Stencil

import VpTesting.StateRules

namespace VpTesting.StateRelations

open VpTesting.StateRules

variable {σ τ α β : Type}

/-- From related states the computations end with the same result, and in related states. -/
def Agree (R : σ → τ → Prop) (x : StateM σ α) (y : StateM τ α) : Prop :=
  ∀ s t, R s t → (x.run s).1 = (y.run t).1 ∧ R (x.run s).2 (y.run t).2

variable {R : σ → τ → Prop}

theorem Agree.pure (a : α) : Agree R (Pure.pure a) (Pure.pure a) := fun _ _ hst => ⟨rfl, hst⟩

theorem Agree.bind {x : StateM σ α} {y : StateM τ α} {f : α → StateM σ β} {g : α → StateM τ β}
    (hx : Agree R x y) (hf : ∀ a, Agree R (f a) (g a)) : Agree R (x >>= f) (y >>= g) := by
  intro s t hst
  obtain ⟨ha, hr⟩ := hx s t hst
  rw [run_bind, run_bind, ← ha]
  exact hf _ _ _ hr

theorem Agree.get {f : σ → StateM σ β} {g : τ → StateM τ β}
    (hf : ∀ s t, R s t → Agree R (f s) (g t)) :
    Agree R (MonadState.get >>= f) (MonadState.get >>= g) := by
  intro s t hst
  exact hf s t hst s t hst

/-- Both return early, or neither does. -/
theorem Agree.guard {check : StateM σ Bool} {check' : StateM τ Bool} {x : StateM σ Unit}
    {y : StateM τ Unit} (hc : Agree R check check') (hx : Agree R x y) :
    Agree R (check >>= fun b => if b = true then x else Pure.pure ())
      (check' >>= fun b => if b = true then y else Pure.pure ()) := by
  apply hc.bind
  intro b
  cases b with
  | false => exact Agree.pure ()
  | true => exact hx

end VpTesting.StateRelations

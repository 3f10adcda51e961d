import Mathlib.Init

namespace VpTesting.StateRules

variable {σ α β : Type}

/-- From every state in `P`, the computation ends with a result and a state in `Q`. -/
def Triple (P : σ → Prop) (x : StateM σ α) (Q : α → σ → Prop) : Prop :=
  ∀ s, P s → Q (x.run s).1 (x.run s).2

@[simp high] theorem run_bind (x : StateM σ α) (f : α → StateM σ β) (s : σ) :
    (x >>= f).run s = (f (x.run s).1).run (x.run s).2 := rfl

@[simp high] theorem run_pure (a : α) (s : σ) : (pure a : StateM σ α).run s = (a, s) := rfl

@[simp high] theorem run_get (s : σ) : (get : StateM σ σ).run s = (s, s) := rfl

variable {P : σ → Prop} {Q : β → σ → Prop}

theorem Triple.bind {x : StateM σ α} {f : α → StateM σ β} {R : α → σ → Prop}
    (hx : Triple P x R) (hf : ∀ a, Triple (R a) (f a) Q) : Triple P (x >>= f) Q := by
  intro s hs
  exact hf _ _ (hx s hs)

theorem Triple.get {f : σ → StateM σ β} (hf : ∀ s, Triple P (f s) Q) :
    Triple P (get >>= f) Q := by
  intro s hs
  exact hf s s hs

/-- A check that returns early when it fails. What it has established holds in
the rest of the computation. -/
theorem Triple.guard {check : StateM σ Bool} {x : StateM σ Unit} {Q : Unit → σ → Prop} {p : Prop}
    (hc : Triple P check (fun b s => if b = true then p ∧ P s else Q () s))
    (hx : p → Triple P x Q) :
    Triple P (check >>= fun b => if b = true then x else Pure.pure ()) Q := by
  refine hc.bind ?_
  intro b s hs
  cases b with
  | false => exact hs
  | true => exact hx hs.1 s hs.2

end VpTesting.StateRules

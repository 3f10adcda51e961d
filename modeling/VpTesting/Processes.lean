import Mathlib.Algebra.BigOperators.Group.Finset.Basic
import VpTesting.MessageQueue

namespace VpTesting.Processes

open VpTesting.MessageQueue

variable {ν β α δ : Type}

/-- The program a process is running, and what it keeps from one program to the next. -/
structure Process (ν β δ α : Type) where
  data : δ
  program : Program ν β α

/-- How a process keeps a record of its calls, and what it may go on with when a program
has ended. -/
structure Behaviour (ν β δ α : Type) where
  record : δ → Event ν β → δ
  starts : δ → α → Process ν β δ α → Prop

namespace Behaviour

/-- A process after a call: still in its program, or at the start of the next one. -/
inductive Settles (b : Behaviour ν β δ α) (data : δ) :
    Program ν β α → Process ν β δ α → Prop
  | running {p : Program ν β α} (hp : ∀ value, p ≠ .done value) : Settles b data p ⟨data, p⟩
  | started {value : α} {P : Process ν β δ α} (h : b.starts data value P) :
    Settles b data (.done value) P

/-- One call of a process, taken as atomic. Only if `mayFail` holds, it may be made to fail. -/
inductive Step [DecidableEq ν] (b : Behaviour ν β δ α) (a : Attributes) (mayFail : Prop)
    (P : Process ν β δ α) (q : ν → List (List β)) :
    Process ν β δ α → (ν → List (List β)) → Prop
  | call {fails : Bool} {p : Program ν β α} {q' : ν → List (List β)} {e : Event ν β}
    {P' : Process ν β δ α} (hf : fails = true → mayFail)
    (hr : P.program.step a fails q = some ⟨p, q', e⟩)
    (hs : Settles b (b.record P.data e) p P') : Step b a mayFail P q P' q'

variable {b : Behaviour ν β δ α} {data : δ} {P : Process ν β δ α}

section

variable [DecidableEq ν] {a : Attributes} {mayFail : Prop} {P' : Process ν β δ α}
  {q q' : ν → List (List β)} {p : Program ν β α} {e : Event ν β}

theorem Step.unfailing (hr : P.program.step a false q = some ⟨p, q', e⟩)
    (hs : Settles b (b.record P.data e) p P') : Step b a mayFail P q P' q' :=
  .call (by rintro ⟨⟩) hr hs

theorem Step.failing (hf : mayFail) (hr : P.program.step a true q = some ⟨p, q', e⟩)
    (hs : Settles b (b.record P.data e) p P') : Step b a mayFail P q P' q' :=
  .call (fun _ => hf) hr hs

end

theorem Settles.done {value : α} (h : Settles b data (.done value) P) :
    b.starts data value P := by
  cases h with
  | running hp => exact absurd rfl (hp value)
  | started h => exact h

theorem Settles.eq_of_ne_done {p : Program ν β α} (hp : ∀ value, p ≠ .done value)
    (h : Settles b data p P) : P = ⟨data, p⟩ := by
  cases h with
  | running => rfl
  | @started value _ h => exact absurd rfl (hp value)

section

variable [DecidableEq ν] {a : Attributes} {P' P₁ : Process ν β δ α} {q q' q₁ : ν → List (List β)}
  {value : α} {e : Event ν β}

/-- A process that blocks makes no call. -/
theorem not_step (h : P.program.step a false q = none) : ¬b.Step a False P q P' q' := by
  rintro ⟨hf, hr, -⟩
  rw [Bool.eq_false_iff.mpr hf, h] at hr
  cases hr

/-- What the last call of a program leads to, if the process can go on in one way only. -/
theorem step_iff_of_done (h : P.program.step a false q = some ⟨.done value, q₁, e⟩)
    (hP : ∀ P', b.starts (b.record P.data e) value P' ↔ P' = P₁) :
    b.Step a False P q P' q' ↔ P' = P₁ ∧ q' = q₁ := by
  constructor
  · rintro ⟨hf, hr, hs⟩
    rw [Bool.eq_false_iff.mpr hf, h] at hr
    cases hr
    exact ⟨(hP P').mp hs.done, rfl⟩
  · rintro ⟨rfl, rfl⟩
    exact .unfailing h (.started ((hP P').mpr rfl))

end

end Behaviour

section

variable {ι π M : Type} [Fintype ι] [DecidableEq ι]

/-- When one process changes, a sum over all processes changes by what that one adds. -/
theorem sum_update_add [AddCommMonoid M] (F : ι → π → M) (g : ι → π) (i : ι) (x : π) :
    ∑ j, F j (Function.update g i x j) + F i (g i) = ∑ j, F j (g j) + F i x := by
  have hg := Finset.add_sum_erase Finset.univ (fun j => F j (g j)) (Finset.mem_univ i)
  have hu := Finset.add_sum_erase Finset.univ (fun j => F j (Function.update g i x j))
    (Finset.mem_univ i)
  have he : ∑ j ∈ Finset.univ.erase i, F j (Function.update g i x j) =
      ∑ j ∈ Finset.univ.erase i, F j (g j) := by
    refine Finset.sum_congr rfl fun j hj => ?_
    rw [Function.update_of_ne (Finset.ne_of_mem_erase hj)]
  simp only [Function.update_self] at hu
  rw [← hg, ← hu, he]
  ac_rfl

variable [AddCancelCommMonoid M] {F : ι → π → M} {g : ι → π} {i : ι} {x : π}
  {total held held' : M}

/-- What one process takes from the shared store it holds itself, or puts back there. -/
theorem conserved_update (hx : held' + F i x = held + F i (g i))
    (h : total = held + ∑ j, F j (g j)) :
    total = held' + ∑ j, F j (Function.update g i x j) := by
  have hs := sum_update_add F g i x
  apply add_right_cancel (b := F i (g i))
  rw [add_assoc, hs, add_comm (∑ j, F j (g j)), ← add_assoc, hx, h]
  ac_rfl

/-- What one process adds to the total is added to the shared store. -/
theorem total_update {rest : M} (hx : F i x + held = F i (g i) + held')
    (h : ∑ j, F j (g j) = held + rest) :
    ∑ j, F j (Function.update g i x j) = held' + rest := by
  have hs := sum_update_add F g i x
  apply add_right_cancel (b := F i (g i))
  rw [hs, h, add_right_comm held', add_comm held', ← hx]
  ac_rfl

end

section

variable {τ : Type} {step good : τ → τ → Prop} {I P : τ → Prop}

/-- If good steps keep an invariant under which `P` holds, and after any other step it does
not hold, then `P` holds all along a run if and only if all steps of the run are good. -/
theorem forall_iff_isChain (hP : ∀ s, I s → P s)
    (hgood : ∀ s t, step s t → good s t → I s → I t)
    (hbad : ∀ s t, step s t → ¬good s t → I s → ¬P t) {s : τ} {run : List τ} (hs : I s)
    (hr : List.IsChain step (s :: run)) :
    (∀ t ∈ s :: run, P t) ↔ List.IsChain good (s :: run) := by
  induction run generalizing s with
  | nil => simp [hP s hs]
  | cons t run ih =>
    obtain ⟨ht, hr⟩ := List.isChain_cons_cons.mp hr
    rw [List.isChain_cons_cons, List.forall_mem_cons, and_iff_right (hP s hs)]
    by_cases hg : good s t
    · rw [and_iff_right hg]
      exact ih (hgood s t ht hg hs) hr
    · have hn := hbad s t ht hg hs
      constructor
      · exact fun hall => absurd (hall t List.mem_cons_self) hn
      · exact fun hc => absurd hc.1 hg

end

end VpTesting.Processes

import Mathlib.Logic.Relation

namespace VpTesting.Completion

variable {τ : Type} {step : τ → τ → Prop} {start next final : τ}

/-- Every run from `start` ends, and wherever no step is left, `final` is reached. -/
def Completes (step : τ → τ → Prop) (start final : τ) : Prop :=
  ∀ s, Relation.ReflTransGen step start s →
    Acc (fun t' t => step t t') s ∧ ((∀ t, ¬step s t) → s = final)

/-- An invariant with a measure that every step lowers is enough for both. -/
theorem completes_of_measure {I : Nat → τ → Prop} (hs : ∃ n, I n start)
    (hstep : ∀ n s t, I n s → step s t → ∃ m < n, I m t)
    (hend : ∀ n s, I n s → (∃ t, step s t) ∨ s = final) : Completes step start final := by
  intro s hr
  obtain ⟨n, hn⟩ : ∃ n, I n s := by
    induction hr with
    | refl => exact hs
    | tail _ ht ih =>
      obtain ⟨n, hn⟩ := ih
      obtain ⟨m, -, hm⟩ := hstep n _ _ hn ht
      exact ⟨m, hm⟩
  constructor
  · clear hr
    induction n using Nat.strongRecOn generalizing s with
    | ind n ih =>
      refine Acc.intro s fun t ht => ?_
      obtain ⟨m, hlt, hm⟩ := hstep n s t hn ht
      exact ih m hlt t hm
  · intro hstuck
    obtain ⟨t, ht⟩ | hf := hend n s hn
    · exact absurd ht (hstuck t)
    · exact hf

theorem completes_of_stuck (h : ∀ s, ¬step final s) : Completes step final final := by
  apply completes_of_measure (I := fun _ s => s = final) ⟨0, rfl⟩
  · rintro n s t rfl ht
    exact absurd ht (h t)
  · exact fun _ _ hs => Or.inr hs

theorem not_completes_of_stuck (h : ∀ s, ¬step start s) (hn : start ≠ final) :
    ¬Completes step start final := fun hc => hn ((hc start .refl).2 h)

/-- Nothing changes with a phase that every step shortens, until a certain state is reached. -/
theorem completes_iff_of_phase {I : Nat → τ → Prop} {n : Nat} (hs : I n start)
    (hstep : ∀ n s t, I n s → step s t → (∃ m < n, I m t) ∨ t = next)
    (hgo : ∀ n s, I n s → ∃ t, step s t) :
    Completes step start final ↔ Completes step next final := by
  induction n using Nat.strongRecOn generalizing start with
  | ind n ih =>
    have hiff : ∀ t, step start t → (Completes step t final ↔ Completes step next final) := by
      intro t ht
      obtain ⟨m, hlt, hm⟩ | rfl := hstep n start t hs ht
      · exact ih m hlt hm
      · exact Iff.rfl
    obtain ⟨t, ht⟩ := hgo n start hs
    constructor
    · exact fun hc => (hiff t ht).mp fun s hr => hc s (.head ht hr)
    · intro hc s hr
      obtain rfl | ⟨u, hu, hr⟩ := Relation.ReflTransGen.cases_head hr
      · exact ⟨Acc.intro start fun u hu => ((hiff u hu).mpr hc u .refl).1,
          fun hstuck => absurd ht (hstuck t)⟩
      · exact (hiff u hu).mpr hc s hr

/-- Nor with a step that is the only one. -/
theorem completes_iff_of_step (h : ∀ s, step start s ↔ s = next) :
    Completes step start final ↔ Completes step next final := by
  refine completes_iff_of_phase (I := fun _ s => s = start) (n := 0) rfl ?_ ?_
  · rintro _ s t rfl ht
    exact Or.inr ((h t).mp ht)
  · rintro _ s rfl
    exact ⟨next, (h next).mpr rfl⟩

/-- A system that goes on as another one does completes as that one does. -/
theorem completes_map_iff {υ : Type} {step' : υ → υ → Prop} {f : τ → υ}
    (hf : ∀ s u, step' (f s) u ↔ ∃ t, step s t ∧ f t = u) (hi : Function.Injective f) :
    Completes step' (f start) (f final) ↔ Completes step start final := by
  have hstep : ∀ s t, step s t → step' (f s) (f t) := fun s t ht => (hf s _).mpr ⟨t, ht, rfl⟩
  constructor
  · intro hc s hr
    obtain ⟨hacc, hend⟩ := hc (f s) (hr.lift f hstep)
    refine ⟨Subrelation.accessible (hstep _ _) (InvImage.accessible f hacc), fun hstuck => ?_⟩
    refine hi (hend fun u hu => ?_)
    obtain ⟨t, ht, -⟩ := (hf s u).mp hu
    exact hstuck t ht
  · intro hc u hr
    obtain ⟨s, hs, rfl⟩ : ∃ s, Relation.ReflTransGen step start s ∧ f s = u := by
      induction hr with
      | refl => exact ⟨start, .refl, rfl⟩
      | tail _ hu ih =>
        obtain ⟨s, hs, rfl⟩ := ih
        obtain ⟨t, ht, rfl⟩ := (hf s _).mp hu
        exact ⟨t, hs.tail ht, rfl⟩
    obtain ⟨hacc, hend⟩ := hc s hs
    constructor
    · clear hr hs hend
      induction hacc with
      | intro s _ ih =>
        refine Acc.intro (f s) fun u hu => ?_
        obtain ⟨t, ht, rfl⟩ := (hf s u).mp hu
        exact ih t ht
    · intro hstuck
      rw [hend fun t ht => hstuck (f t) (hstep s t ht)]

end VpTesting.Completion

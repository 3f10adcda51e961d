import Mathlib.Data.List.Perm.Basic
import VpTesting.BufferLedger

namespace VpTesting.Ownership

open VpTesting.BufferLedger

/-- The buffers that are not released are those of the list, and each of them has one owner. -/
structure Owns (l : Ledger) (owned : List Nat) : Prop where
  sound : l.Sound
  once : owned.Nodup
  live : ∀ b, l.Live b ↔ b ∈ owned

section

variable {l : Ledger} {owned owned' : List Nat} {b : Nat}

theorem owns_empty : Owns {} [] :=
  ⟨Ledger.sound_empty, List.nodup_nil,
    fun _ => iff_of_false (fun hb => Nat.not_lt_zero _ hb.1) List.not_mem_nil⟩

theorem Owns.perm (ho : Owns l owned) (hp : owned.Perm owned') : Owns l owned' :=
  ⟨ho.sound, hp.nodup_iff.mp ho.once, fun b => (ho.live b).trans hp.mem_iff⟩

theorem Owns.not_mem_created (ho : Owns l owned) : l.created ∉ owned :=
  fun hmem => Nat.lt_irrefl _ ((ho.live _).mpr hmem).1

theorem Owns.malloc (ho : Owns l owned) : Owns l.malloc (l.created :: owned) := by
  have hnew : l.created ∉ l.released := fun hmem => Nat.lt_irrefl _ (ho.sound.created _ hmem)
  refine ⟨ho.sound.malloc, List.nodup_cons.mpr ⟨ho.not_mem_created, ho.once⟩, fun b => ?_⟩
  have hb : b = l.created ∧ b ∉ l.released ↔ b = l.created :=
    and_iff_left_of_imp fun he => he ▸ hnew
  rw [Ledger.live_malloc, List.mem_cons, ho.live, hb, or_comm]

theorem Owns.free (ho : Owns l (b :: owned)) : Owns (l.free b) owned := by
  obtain ⟨hb, hn⟩ := List.nodup_cons.mp ho.once
  refine ⟨ho.sound.free ((ho.live b).mpr List.mem_cons_self), hn, fun c => ?_⟩
  rw [Ledger.live_free, ho.live, List.mem_cons]
  constructor
  · rintro ⟨rfl | hc, hne⟩
    · exact absurd rfl hne
    · exact hc
  · intro hc
    exact ⟨Or.inr hc, fun he => hb (he ▸ hc)⟩

end

/-- The pointer owns its buffer, and others own the buffers of the list. -/
def OwnsWith (h : Holder) (others : List Nat) : Prop := Owns h.ledger (h.data.toList ++ others)

section

variable {h : Holder} {others : List Nat}

theorem OwnsWith.release (ho : OwnsWith h others) : OwnsWith h.release others := by
  cases hd : h.data with
  | none => rwa [Holder.release_of_null hd]
  | some b =>
    rw [OwnsWith, hd] at ho
    rw [OwnsWith, Holder.release, hd]
    exact ho.free

theorem OwnsWith.allocate (ho : OwnsWith h others) (hd : h.data = none) :
    OwnsWith h.allocate others := by
  rw [OwnsWith, hd] at ho
  exact ho.malloc

/-- A pointer that is reset leaves its buffer to the others. -/
theorem OwnsWith.reset (ho : OwnsWith h others) : OwnsWith h.reset (h.data.toList ++ others) := ho

end

end VpTesting.Ownership

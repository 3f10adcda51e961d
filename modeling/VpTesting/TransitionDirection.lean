import VpTesting.TransitionCounts

namespace VpTesting.TransitionDirection

open VpTesting.Histogram VpTesting.TestingReceiver VpTesting.TestingReceiver.Receiver
  VpTesting.TransitionCounts

section

variable {m n : Nat}

/-- Zero is the only number that is its own half. -/
theorem eq_of_half_eq (h : m ^^^ n = m / 2 ^^^ n / 2) : m = n := by
  have hz : m ^^^ n = 0 := by
    rw [← Nat.xor_div_two] at h
    omega
  exact Nat.xor_eq_zero_iff.mp hz

theorem xor_half_injective : Function.Injective fun n : Nat => n ^^^ n / 2 := by
  intro m n h
  apply eq_of_half_eq
  have hx : m ^^^ m / 2 = n ^^^ n / 2 := h
  calc
    m ^^^ n = (m ^^^ m / 2) ^^^ (m / 2 ^^^ n) := by
      rw [Nat.xor_assoc, Nat.xor_xor_cancel_left]
    _ = (n ^^^ n / 2) ^^^ (m / 2 ^^^ n) := by rw [hx]
    _ = m / 2 ^^^ n / 2 := by
      rw [Nat.xor_comm (m / 2), Nat.xor_comm n (n / 2), Nat.xor_assoc, Nat.xor_xor_cancel_left,
        Nat.xor_comm]

theorem eq_of_swapped (h : m ^^^ n / 2 = n ^^^ m / 2) : m = n := by
  apply eq_of_half_eq
  calc
    m ^^^ n = (m ^^^ n / 2) ^^^ (n / 2 ^^^ n) := by
      rw [Nat.xor_assoc, Nat.xor_xor_cancel_left]
    _ = (n ^^^ m / 2) ^^^ (n / 2 ^^^ n) := by rw [h]
    _ = m / 2 ^^^ n / 2 := by
      rw [Nat.xor_comm (n / 2), Nat.xor_comm n (m / 2), Nat.xor_assoc, Nat.xor_xor_cancel_left]

end

/-- From one state to the other, the entry `i` of the map is incremented and no other entry
is changed. -/
def Increments (r r' : Receiver) (i : Fin mapSize) : Prop :=
  r'.mBbArray = Function.update r.mBbArray i (r.mBbArray i + 1)

theorem hit_eq_update {n : Nat} (counters : Fin n → UInt8) (i : Fin n) :
    hit counters i.val = Function.update counters i (counters i + 1) := by
  funext k
  by_cases hk : k = i
  · subst hk
    rw [hit, if_pos rfl, Function.update_self]
  · rw [hit, if_neg fun h => hk (Fin.ext h), Function.update_of_ne hk]

/-- The entry that is incremented by the block at `pc` right after the one at `pred`. -/
def entry (pred pc : UInt64) : Fin mapSize := ⟨transition pred pc, transition_lt pred pc⟩

theorem increments_entry (r : Receiver) (pred pc : UInt64) :
    Increments (r.setBlock pred) ((r.setBlock pred).setBlock pc) (entry pred pc) := by
  rw [Increments, setBlock_mBbArray, (After.setBlock r pred).writeIndex]
  exact hit_eq_update _ (entry pred pc)

variable {a b : UInt64}

theorem location_ne (h : currBbLoc a ≠ currBbLoc b) : location a ≠ location b := by
  intro hl
  rw [← currBbLoc_toNat, ← currBbLoc_toNat] at hl
  exact h (UInt64.toNat_inj.mp hl)

theorem entry_swap_ne (h : currBbLoc a ≠ currBbLoc b) : entry b a ≠ entry a b := by
  intro he
  exact location_ne h (eq_of_swapped (congrArg Fin.val he))

theorem entry_self_ne (h : currBbLoc a ≠ currBbLoc b) : entry a a ≠ entry b b := by
  intro he
  exact location_ne h (xor_half_injective (congrArg Fin.val he))

/-- Two blocks at different locations, executed one after the other in either order, or each
of them twice in a row, increment different entries. -/
theorem entries_apart (r r' : Receiver) (h : currBbLoc a ≠ currBbLoc b) :
    (∃ i j, i ≠ j ∧ Increments (r.setBlock b) ((r.setBlock b).setBlock a) i ∧
      Increments (r'.setBlock a) ((r'.setBlock a).setBlock b) j) ∧
    ∃ i j, i ≠ j ∧ Increments (r.setBlock a) ((r.setBlock a).setBlock a) i ∧
      Increments (r'.setBlock b) ((r'.setBlock b).setBlock b) j := by
  constructor
  · exact ⟨entry b a, entry a b, entry_swap_ne h, increments_entry r b a, increments_entry r' a b⟩
  · exact ⟨entry a a, entry b b, entry_self_ne h, increments_entry r a a, increments_entry r' b b⟩

def cleared : Receiver := { mBbArray := fun _ => 0 }

/-- The blocks at 0 and at 16. -/
theorem entries_apart_of_blocks :
    ∃ i j, i ≠ j ∧ Increments (cleared.setBlock 16) ((cleared.setBlock 16).setBlock 0) i ∧
      Increments (cleared.setBlock 0) ((cleared.setBlock 0).setBlock 16) j :=
  (entries_apart cleared cleared (by decide)).1

end VpTesting.TransitionDirection

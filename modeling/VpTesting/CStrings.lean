import Mathlib.Data.UInt

namespace VpTesting.CStrings

variable {α : Type} [DecidableEq α] [Zero α] (m : Nat → α) (start : Nat)

/-- The number of cells before the first zero cell, and at most `maxlen`. -/
def strnlen (start : Nat) : Nat → Nat
  | 0 => 0
  | maxlen + 1 => if m start = 0 then 0 else strnlen (start + 1) maxlen + 1

/-- The cells that the search of `strnlen` looks at. -/
def scanned (start : Nat) : Nat → List Nat
  | 0 => []
  | maxlen + 1 => start :: if m start = 0 then [] else scanned (start + 1) maxlen

variable {m start} {maxlen i : Nat}

theorem strnlen_le : strnlen m start maxlen ≤ maxlen := by
  induction maxlen generalizing start with
  | zero => exact Nat.le_refl 0
  | succ maxlen ih =>
    rw [strnlen]
    split
    · exact Nat.zero_le _
    · exact Nat.succ_le_succ ih

theorem ne_zero_of_lt_strnlen (hi : i < strnlen m start maxlen) : m (start + i) ≠ 0 := by
  induction maxlen generalizing start i with
  | zero => exact absurd hi (Nat.not_lt_zero i)
  | succ maxlen ih =>
    rw [strnlen] at hi
    split at hi
    · exact absurd hi (Nat.not_lt_zero i)
    · next hz =>
      cases i with
      | zero => exact hz
      | succ i =>
        have hm := ih (Nat.succ_lt_succ_iff.mp hi)
        rwa [Nat.add_right_comm] at hm

theorem zero_of_strnlen_lt (hl : strnlen m start maxlen < maxlen) :
    m (start + strnlen m start maxlen) = 0 := by
  induction maxlen generalizing start with
  | zero => exact absurd hl (Nat.not_lt_zero _)
  | succ maxlen ih =>
    rw [strnlen] at hl ⊢
    split at hl
    · next hz =>
      rw [if_pos hz]
      exact hz
    · next hz =>
      rw [if_neg hz]
      have hm := ih (Nat.succ_lt_succ_iff.mp hl)
      rwa [Nat.add_right_comm] at hm

/-- The search looks at the first cell if it may look at one at all, and at none behind
the last one it may look at. -/
theorem start_mem_scanned (hl : 0 < maxlen) : start ∈ scanned m start maxlen := by
  cases maxlen with
  | zero => exact absurd hl (Nat.lt_irrefl 0)
  | succ maxlen => exact List.mem_cons_self

theorem lt_of_mem_scanned (hi : i ∈ scanned m start maxlen) : i < start + maxlen := by
  induction maxlen generalizing start with
  | zero => exact absurd hi List.not_mem_nil
  | succ maxlen ih =>
    obtain rfl | hi := List.mem_cons.mp hi
    · omega
    · split at hi
      · exact absurd hi List.not_mem_nil
      · have hlt := ih hi
        omega

/-- The search looks at nothing behind a zero cell. -/
theorem le_of_mem_scanned {stop : Nat} (hi : i ∈ scanned m start maxlen) (hs : start ≤ stop)
    (hz : m stop = 0) : i ≤ stop := by
  induction maxlen generalizing start with
  | zero => exact absurd hi List.not_mem_nil
  | succ maxlen ih =>
    obtain rfl | hi := List.mem_cons.mp hi
    · exact hs
    · split at hi
      · exact absurd hi List.not_mem_nil
      · next hne =>
        refine ih hi (Nat.lt_of_le_of_ne hs ?_)
        rintro rfl
        exact hne hz

/-- The string from `start` on ends before `last`: with its first zero cell, or if there
is none before `stop`, there. -/
def StringEnd (m : Nat → α) (start stop last : Nat) : Prop :=
  (∃ z, start ≤ z ∧ z < stop ∧ m z = 0 ∧ (∀ i, start ≤ i → i < z → m i ≠ 0) ∧ last = z + 1) ∨
    (∀ i, start ≤ i → i < stop → m i ≠ 0) ∧ last = stop

/-- The string and its terminating cell, if the search leaves out the last cell that may
be one. -/
theorem stringEnd_strnlen {stop : Nat} (hs : start < stop) :
    StringEnd m start stop (start + (strnlen m start (stop - start - 1) + 1)) := by
  let k := strnlen m start (stop - start - 1)
  have hk : k ≤ stop - start - 1 := strnlen_le
  have hne (i : Nat) (hi : start ≤ i) (hik : i < start + k) : m i ≠ 0 := by
    have hlt : i - start < strnlen m start (stop - start - 1) := by omega
    have hm := ne_zero_of_lt_strnlen hlt
    rwa [Nat.add_sub_cancel' hi] at hm
  by_cases hz : m (start + k) = 0
  · exact Or.inl ⟨start + k, by omega, by omega, hz, hne, rfl⟩
  · have hlast : k = stop - start - 1 := by
      obtain hlt | heq := Nat.lt_or_eq_of_le hk
      · exact absurd (zero_of_strnlen_lt hlt) hz
      · exact heq
    refine Or.inr ⟨fun i hi his => ?_, by omega⟩
    obtain hlt | hge := Nat.lt_or_ge i (start + k)
    · exact hne i hi hlt
    · obtain rfl : i = start + k := by omega
      exact hz

end VpTesting.CStrings

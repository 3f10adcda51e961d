import VpTesting.TransitionCounts

namespace VpTesting.BlockLocations

open VpTesting.TestingReceiver VpTesting.TestingReceiver.Receiver VpTesting.CoverageReset
  VpTesting.TransitionCounts

section

variable (pc : UInt64)

theorem location_eq : location pc = (pc.toNat / 2 ^ 4 ^^^ pc.toNat * 2 ^ 8) % 2 ^ 16 := by
  have hs : mapSize = 2 ^ 16 := mapSize_eq
  have hr : (pc >>> 4).toNat = pc.toNat / 2 ^ 4 := by
    rw [UInt64.toNat_shiftRight, Nat.shiftRight_eq_div_pow]
    rfl
  have hl : (pc <<< 8).toNat = pc.toNat * 2 ^ 8 % 2 ^ 64 := by
    rw [UInt64.toNat_shiftLeft, Nat.shiftLeft_eq]
    rfl
  rw [location, UInt64.toNat_xor, hr, hl, hs, Nat.xor_mod_two_pow, Nat.xor_mod_two_pow,
    Nat.mod_mod_of_dvd _ (Nat.pow_dvd_pow 2 (by decide : 16 ≤ 64))]

/-- The lower half of a location is the second byte of the address, four bits further up. -/
theorem location_mod : location pc % 2 ^ 8 = pc.toNat / 2 ^ 4 % 2 ^ 8 := by
  have hz : pc.toNat * 2 ^ 8 % 2 ^ 8 = 0 := Nat.mul_mod_left _ _
  rw [location_eq, Nat.mod_mod_of_dvd _ (Nat.pow_dvd_pow 2 (by decide : 8 ≤ 16)),
    Nat.xor_mod_two_pow, hz, Nat.xor_zero]

/-- The upper half is the byte behind it, with the lowest byte of the address. -/
theorem location_div :
    location pc / 2 ^ 8 = pc.toNat / 2 ^ 12 % 2 ^ 8 ^^^ pc.toNat % 2 ^ 8 := by
  have hr : pc.toNat / 2 ^ 4 % 2 ^ 16 / 2 ^ 8 = pc.toNat / 2 ^ 12 % 2 ^ 8 := by omega
  have hl : pc.toNat * 2 ^ 8 % 2 ^ 16 / 2 ^ 8 = pc.toNat % 2 ^ 8 := by omega
  rw [location_eq, Nat.xor_mod_two_pow, Nat.xor_div_two_pow, hr, hl]

end

theorem location_xor (a b : UInt64) : location (a ^^^ b) = location a ^^^ location b := by
  have hx : (a ^^^ b).toNat * 2 ^ 8 = a.toNat * 2 ^ 8 ^^^ b.toNat * 2 ^ 8 := by
    rw [UInt64.toNat_xor, ← Nat.shiftLeft_eq, Nat.shiftLeft_xor_distrib, Nat.shiftLeft_eq,
      Nat.shiftLeft_eq]
  rw [location_eq, location_eq, location_eq, hx, ← Nat.xor_mod_two_pow, UInt64.toNat_xor,
    Nat.xor_div_two_pow]
  congr 1
  ac_rfl

/-- Of the lower twenty bits of `x`, bits 0 to 3 and bits 12 to 15 are one number of four bits, and
bits 4 to 7 and bits 16 to 19 are `n`; the others are 0. -/
def Repeats (x : UInt64) (n : Nat) : Prop := ∃ k < 16, x.toNat % 2 ^ 20 = n * 0x10010 + k * 0x1001

theorem location_eq_iff {x : UInt64} {n : Nat} (hn : n < 16) : location x = n ↔ Repeats x n := by
  have hhalves : location x = n ↔ location x / 2 ^ 8 = 0 ∧ location x % 2 ^ 8 = n := by omega
  have htwenty : x.toNat % 2 ^ 20 =
      x.toNat / 2 ^ 12 % 2 ^ 8 * 2 ^ 12 + x.toNat / 2 ^ 4 % 2 ^ 8 * 2 ^ 4 + x.toNat % 2 ^ 4 := by
    omega
  have height : x.toNat % 2 ^ 8 = x.toNat / 2 ^ 4 % 2 ^ 8 % 2 ^ 4 * 2 ^ 4 + x.toNat % 2 ^ 4 := by
    omega
  have hk : x.toNat % 2 ^ 4 < 2 ^ 4 := Nat.mod_lt _ (by decide)
  have hm : x.toNat / 2 ^ 4 % 2 ^ 8 < 2 ^ 8 := Nat.mod_lt _ (by decide)
  rw [hhalves, location_div, location_mod, Nat.xor_eq_zero_iff, Repeats, htwenty, height]
  generalize x.toNat / 2 ^ 12 % 2 ^ 8 = upper
  generalize x.toNat / 2 ^ 4 % 2 ^ 8 = middle at hm ⊢
  generalize x.toNat % 2 ^ 4 = k at hk ⊢
  constructor
  · rintro ⟨hupper, rfl⟩
    exact ⟨k, hk, by omega⟩
  · rintro ⟨k', hk', hx⟩
    have hu : upper = n * 16 + k' := by
      cases Nat.lt_trichotomy upper (n * 16 + k') with
      | inl hlt => omega
      | inr h => cases h with
        | inl he => exact he
        | inr hlt => omega
    have he : middle = n := by
      cases Nat.lt_trichotomy middle n with
      | inl hlt => omega
      | inr h => cases h with
        | inl he => exact he
        | inr hlt => omega
    exact ⟨by omega, he⟩

/-- Two transitions count for one entry exactly if the locations of their blocks differ by half of
what those of the blocks before them differ by. -/
theorem transition_eq_iff (a b c d : UInt64) :
    transition a b = transition c d ↔ location (b ^^^ d) = location (a ^^^ c) / 2 := by
  rw [location_xor, location_xor, Nat.xor_div_two, transition, transition]
  constructor
  · intro h
    calc
      location b ^^^ location d =
          (location b ^^^ location a / 2) ^^^ (location a / 2 ^^^ location d) := by
        rw [Nat.xor_assoc, Nat.xor_xor_cancel_left]
      _ = (location d ^^^ location c / 2) ^^^ (location a / 2 ^^^ location d) := by rw [h]
      _ = location a / 2 ^^^ location c / 2 := by
        rw [Nat.xor_comm (location d), Nat.xor_comm (location a / 2) (location d), Nat.xor_assoc,
          Nat.xor_xor_cancel_left, Nat.xor_comm]
  · intro h
    calc
      location b ^^^ location a / 2 =
          (location b ^^^ location d) ^^^ (location d ^^^ location a / 2) := by
        rw [Nat.xor_assoc, Nat.xor_xor_cancel_left]
      _ = (location a / 2 ^^^ location c / 2) ^^^ (location d ^^^ location a / 2) := by rw [h]
      _ = location d ^^^ location c / 2 := by
        rw [Nat.xor_comm (location a / 2), Nat.xor_comm (location d), Nat.xor_assoc,
          Nat.xor_xor_cancel_left, Nat.xor_comm]

theorem writeIndex_setBlock (r : Receiver) (pred pc : UInt64) :
    writeIndex (r.setBlock pred) pc = transition pred pc :=
  (After.setBlock r pred).writeIndex pc

/-- When two transitions count for one entry of the map. Behind the same block, it is exactly if the
two addresses differ, in their lower twenty bits, by one pattern in bits 0 to 3 and again in bits 12
to 15; before the same block, they may also differ in bits 4 and 16 besides. -/
theorem writeIndex_eq_iff (r r' : Receiver) (a b c d pc : UInt64) :
    (writeIndex (r.setBlock a) b = writeIndex (r'.setBlock c) d ↔
        location (b ^^^ d) = location (a ^^^ c) / 2) ∧
      (writeIndex (r.setBlock pc) a = writeIndex (r'.setBlock pc) b ↔ Repeats (a ^^^ b) 0) ∧
      (writeIndex (r.setBlock a) pc = writeIndex (r'.setBlock b) pc ↔
        Repeats (a ^^^ b) 0 ∨ Repeats (a ^^^ b) 1) := by
  have hz : location 0 = 0 := by decide
  simp only [writeIndex_setBlock, transition_eq_iff, UInt64.xor_self, hz, Nat.zero_div, true_and]
  constructor
  · exact location_eq_iff (by decide)
  · rw [← location_eq_iff (by decide), ← location_eq_iff (by decide)]
    omega

end VpTesting.BlockLocations

import VpTesting.TestingReceiver

namespace VpTesting.CoverageReset

open VpTesting.Histogram VpTesting.TestingReceiver VpTesting.TestingReceiver.Receiver

/-- The map indices that executing the blocks at `pcs` hits, from a previous location on. -/
def indices (prevBbLoc : UInt64) : List UInt64 → List Nat
  | [] => []
  | pc :: pcs => (currBbLoc pc ^^^ prevBbLoc).toNat :: indices (currBbLoc pc >>> 1) pcs

theorem foldl_setBlock_mBbArray (r : Receiver) (pcs : List UInt64) :
    (pcs.foldl setBlock r).mBbArray = (indices r.mPrevBbLoc pcs).foldl hit r.mBbArray := by
  induction pcs generalizing r with
  | nil => rfl
  | cons pc pcs ih => exact ih (r.setBlock pc)

theorem mapSize_eq : mapSize = 2 ^ 16 := rfl

theorem currBbLoc_lt (pc : UInt64) : (currBbLoc pc).toNat < mapSize := by
  rw [currBbLoc, UInt64.toNat_and, mapSize_eq]
  exact Nat.and_lt_two_pow _ (by decide)

theorem prevBbLoc_lt (r : Receiver) (pcs : List UInt64) (hr : r.mPrevBbLoc.toNat < mapSize) :
    (pcs.foldl setBlock r).mPrevBbLoc.toNat < mapSize := by
  induction pcs generalizing r with
  | nil => exact hr
  | cons pc pcs ih =>
    apply ih
    have hlt := currBbLoc_lt pc
    have hle : (currBbLoc pc >>> 1).toNat ≤ (currBbLoc pc).toNat := by
      rw [UInt64.toNat_shiftRight]
      exact Nat.shiftRight_le _ _
    exact Nat.lt_of_le_of_lt hle hlt

theorem index_lt (pc : UInt64) {prevBbLoc : UInt64} (hp : prevBbLoc.toNat < mapSize) :
    (currBbLoc pc ^^^ prevBbLoc).toNat < mapSize := by
  have hc := currBbLoc_lt pc
  rw [mapSize_eq] at hc hp ⊢
  rw [UInt64.toNat_xor]
  exact Nat.xor_lt_two_pow hc hp

/-- A receiver after its construction, with whatever the map then holds, and the
execution of the blocks at `pcs`. -/
def tracked (contents : Fin mapSize → UInt8) (pcs : List UInt64) : Receiver :=
  pcs.foldl setBlock { mBbArray := contents }

theorem tracked_lt (contents : Fin mapSize → UInt8) (pcs : List UInt64) :
    (tracked contents pcs).mPrevBbLoc.toNat < mapSize :=
  prevBbLoc_lt { mBbArray := contents } pcs (Nat.two_pow_pos mapSizePow2)

/-- The coverage reported for the blocks executed after a reset. -/
def measured (r : Receiver) (pcs : List UInt64) : List UInt8 :=
  (pcs.foldl setBlock r.resetCodeCoverage).getCodeCoverage

theorem measured_eq (r : Receiver) (pcs : List UInt64) :
    measured r pcs = List.ofFn (histogram mapSize (indices r.mPrevBbLoc pcs)) := by
  rw [measured, getCodeCoverage, foldl_setBlock_mBbArray, foldl_hit]
  congr 1
  funext i
  exact UInt8.zero_add _

/-- Executed first after the reset, a block hits different entries after different
previous locations, and every block after it the same ones. -/
theorem measured_cons_eq_iff {r₁ r₂ : Receiver} (h₁ : r₁.mPrevBbLoc.toNat < mapSize)
    (pc : UInt64) (pcs : List UInt64) :
    measured r₁ (pc :: pcs) = measured r₂ (pc :: pcs) ↔ r₁.mPrevBbLoc = r₂.mPrevBbLoc := by
  rw [measured_eq, measured_eq, List.ofFn_inj, indices, indices,
    histogram_cons_inj _ (index_lt pc h₁), UInt64.toNat_inj, UInt64.xor_right_inj]

/-- What is measured after a reset depends only on the blocks executed after it and,
if there are any, on the location of the last block executed before it. -/
theorem measured_eq_iff (contents₁ contents₂ : Fin mapSize → UInt8)
    (before₁ before₂ after : List UInt64) :
    measured (tracked contents₁ before₁) after = measured (tracked contents₂ before₂) after ↔
      after = [] ∨
        (tracked contents₁ before₁).mPrevBbLoc = (tracked contents₂ before₂).mPrevBbLoc := by
  cases after with
  | nil => simp [measured_eq, indices]
  | cons pc pcs =>
    rw [measured_cons_eq_iff (tracked_lt contents₁ before₁)]
    simp

/-- The block at address 0 is counted elsewhere if the block at 16 ran before the reset. -/
theorem measured_after_block :
    measured (tracked (fun _ => 0) []) [0] ≠ measured (tracked (fun _ => 0) [16]) [0] := by
  intro h
  have hp := (measured_cons_eq_iff (tracked_lt _ []) 0 []).mp h
  exact absurd hp (by decide)

end VpTesting.CoverageReset

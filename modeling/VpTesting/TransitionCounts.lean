import VpTesting.CoverageReset

namespace VpTesting.TransitionCounts

open VpTesting.Histogram VpTesting.TestingReceiver VpTesting.TestingReceiver.Receiver
  VpTesting.CoverageReset

/-- Where a block is located in the map, the shifts being those of 64-bit integers. -/
def location (pc : UInt64) : Nat := ((pc >>> 4) ^^^ (pc <<< 8)).toNat % mapSize

/-- The entry that counts the transitions from the block at `pred` to the block at `pc`. -/
def transition (pred pc : UInt64) : Nat := location pc ^^^ location pred / 2

/-- The entries that the blocks at `pcs` count for, executed in turn after the one at `pred`. -/
def transitions (pred : UInt64) : List UInt64 → List Nat
  | [] => []
  | pc :: pcs => transition pred pc :: transitions pc pcs

inductive TrackerCall
  | setBlock (pc : UInt64)
  | resetCodeCoverage
  deriving DecidableEq

namespace TrackerCall

def apply (r : Receiver) : TrackerCall → Receiver
  | setBlock pc => r.setBlock pc
  | resetCodeCoverage => r.resetCodeCoverage

/-- The block executed last, `pred` being the one before the call. -/
def latest (pred : UInt64) : TrackerCall → UInt64
  | setBlock pc => pc
  | resetCodeCoverage => pred

end TrackerCall

/-- A receiver after its construction, whatever its map then holds, and some calls. -/
def reached (contents : Fin mapSize → UInt8) (calls : List TrackerCall) : Receiver :=
  calls.foldl TrackerCall.apply { mBbArray := contents }

/-- The block executed last by the calls, or 0. -/
def lastExecuted (calls : List TrackerCall) : UInt64 := calls.foldl TrackerCall.latest 0

/-- The index that `set_block` writes at. -/
def writeIndex (r : Receiver) (pc : UInt64) : Nat := (currBbLoc pc ^^^ r.mPrevBbLoc).toNat

theorem setBlock_mBbArray (r : Receiver) (pc : UInt64) :
    (r.setBlock pc).mBbArray = hit r.mBbArray (writeIndex r pc) := rfl

theorem currBbLoc_toNat (pc : UInt64) : (currBbLoc pc).toNat = location pc := by
  rw [currBbLoc, UInt64.toNat_and, location, mapSize_eq]
  exact Nat.and_two_pow_sub_one_eq_mod _ 16

theorem location_lt (pc : UInt64) : location pc < mapSize := by
  rw [← currBbLoc_toNat]
  exact currBbLoc_lt pc

theorem transition_lt (pred pc : UInt64) : transition pred pc < mapSize := by
  have hc := location_lt pc
  have hp := Nat.lt_of_le_of_lt (Nat.div_le_self (location pred) 2) (location_lt pred)
  rw [mapSize_eq] at hc hp
  exact Nat.xor_lt_two_pow hc hp

/-- The receiver remembers half the location of the block at `pred`. -/
def After (pred : UInt64) (r : Receiver) : Prop := r.mPrevBbLoc.toNat = location pred / 2

theorem After.setBlock (r : Receiver) (pc : UInt64) : After pc (r.setBlock pc) := by
  have hs : (r.setBlock pc).mPrevBbLoc = currBbLoc pc >>> 1 := rfl
  rw [After, hs, UInt64.toNat_shiftRight, currBbLoc_toNat]
  exact Nat.shiftRight_one _

theorem After.apply {pred : UInt64} {r : Receiver} (hr : After pred r) (c : TrackerCall) :
    After (c.latest pred) (c.apply r) := by
  cases c with
  | setBlock pc => exact After.setBlock r pc
  | resetCodeCoverage => exact hr

theorem After.foldl {pred : UInt64} {r : Receiver} (hr : After pred r)
    (calls : List TrackerCall) :
    After (calls.foldl TrackerCall.latest pred) (calls.foldl TrackerCall.apply r) := by
  induction calls generalizing pred r with
  | nil => exact hr
  | cons c calls ih => exact ih (hr.apply c)

theorem after_reached (contents : Fin mapSize → UInt8) (calls : List TrackerCall) :
    After (lastExecuted calls) (reached contents calls) := by
  apply After.foldl
  have hz : (0 : UInt64).toNat = location 0 / 2 := by decide
  exact hz

theorem After.writeIndex {pred : UInt64} {r : Receiver} (hr : After pred r) (pc : UInt64) :
    writeIndex r pc = transition pred pc := by
  rw [TransitionCounts.writeIndex, UInt64.toNat_xor, hr, currBbLoc_toNat, transition]

theorem After.indices {pred : UInt64} {r : Receiver} (hr : After pred r) (pcs : List UInt64) :
    indices r.mPrevBbLoc pcs = transitions pred pcs := by
  induction pcs generalizing pred r with
  | nil => rfl
  | cons pc pcs ih =>
    have hi := ih (After.setBlock r pc)
    exact congrArg₂ List.cons (hr.writeIndex pc) hi

/-- The map after a reset and the blocks at `pcs`. -/
def mapAfter (contents : Fin mapSize → UInt8) (before : List TrackerCall) (pcs : List UInt64) :
    Fin mapSize → UInt8 :=
  (pcs.foldl setBlock (reached contents before).resetCodeCoverage).mBbArray

theorem mapAfter_eq (contents : Fin mapSize → UInt8) (before : List TrackerCall)
    (pcs : List UInt64) :
    mapAfter contents before pcs = histogram mapSize (transitions (lastExecuted before) pcs) := by
  have hr : After (lastExecuted before) (reached contents before).resetCodeCoverage :=
    (after_reached contents before).apply .resetCodeCoverage
  rw [mapAfter, foldl_setBlock_mBbArray, hr.indices, foldl_hit]
  funext i
  exact UInt8.zero_add _

theorem toNat_mapAfter (contents : Fin mapSize → UInt8) (before : List TrackerCall)
    (pcs : List UInt64) (i : Fin mapSize) :
    (mapAfter contents before pcs i).toNat =
      (transitions (lastExecuted before) pcs).count i.val % 256 := by
  rw [mapAfter_eq, histogram, UInt8.toNat_ofNat']

/-- No write leaves the map, and the entries count the transitions since the reset. -/
theorem counted (contents : Fin mapSize → UInt8) (before : List TrackerCall) :
    (∀ pc, writeIndex (reached contents before) pc < mapSize) ∧
      ∀ (pcs : List UInt64) (i : Fin mapSize), (mapAfter contents before pcs i).toNat =
        (transitions (lastExecuted before) pcs).count i.val % 256 := by
  refine ⟨fun pc => ?_, toNat_mapAfter contents before⟩
  rw [(after_reached contents before).writeIndex]
  exact transition_lt _ _

theorem transitions_lt {pred : UInt64} {pcs : List UInt64} {i : Nat}
    (hi : i ∈ transitions pred pcs) : i < mapSize := by
  induction pcs generalizing pred with
  | nil => exact absurd hi List.not_mem_nil
  | cons pc pcs ih =>
    obtain rfl | hi := List.mem_cons.mp hi
    · exact transition_lt pred pc
    · exact ih hi

/-- Every transition that occurred since the reset is reported as covered. -/
def Visible (contents : Fin mapSize → UInt8) (before : List TrackerCall) (pcs : List UInt64) :
    Prop :=
  ∀ i : Fin mapSize, i.val ∈ transitions (lastExecuted before) pcs →
    mapAfter contents before pcs i ≠ 0

/-- An entry is back at zero after a multiple of 256 hits. -/
theorem visible_iff (contents : Fin mapSize → UInt8) (before : List TrackerCall)
    (pcs : List UInt64) :
    Visible contents before pcs ↔ ∀ i ∈ transitions (lastExecuted before) pcs,
      ¬256 ∣ (transitions (lastExecuted before) pcs).count i := by
  have hentry (i : Fin mapSize) : mapAfter contents before pcs i = 0 ↔
      256 ∣ (transitions (lastExecuted before) pcs).count i.val := by
    rw [← UInt8.toNat_inj, toNat_mapAfter, Nat.dvd_iff_mod_eq_zero]
    rfl
  constructor
  · intro hv i hi hd
    have hlt := transitions_lt hi
    exact hv ⟨i, hlt⟩ hi ((hentry ⟨i, hlt⟩).mpr hd)
  · intro hc i hi hz
    exact hc i.val hi ((hentry i).mp hz)

theorem transitions_replicate (pc : UInt64) (n : Nat) :
    transitions pc (List.replicate n pc) = List.replicate n (transition pc pc) := by
  induction n with
  | zero => rfl
  | succ n ih => rw [List.replicate_succ, List.replicate_succ, transitions, ih]

/-- A block that runs 256 times in a row. -/
theorem loop_not_visible :
    ¬Visible (fun _ => 0) [] (List.replicate 256 0) := by
  intro hv
  have hc := transitions_replicate 0 256
  have hm : transition 0 0 ∈ transitions 0 (List.replicate 256 0) := by
    rw [hc]
    exact List.mem_replicate.mpr ⟨by decide, rfl⟩
  refine hv ⟨transition 0 0, transition_lt 0 0⟩ hm ?_
  rw [← UInt8.toNat_inj, toNat_mapAfter]
  have hl : lastExecuted [] = 0 := rfl
  rw [hl, hc, List.count_replicate_self]
  rfl

end VpTesting.TransitionCounts

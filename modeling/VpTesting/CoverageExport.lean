import VpTesting.SharedMemory

namespace VpTesting.CoverageExport

open VpTesting.ByteMemory VpTesting.Types VpTesting.TestingReceiver VpTesting.SharedMemory

variable {σ : Type}

/-- The memory with the map at `[offset, offset + mapSize)`, and all else as it was. -/
def exported (mBbArray : Fin mapSize → UInt8) (offset : Nat) (memory : Nat → UInt8) (i : Nat) :
    UInt8 :=
  if hi : offset ≤ i ∧ i - offset < mapSize then mBbArray ⟨i - offset, hi.2⟩ else memory i

theorem copy_memory (mBbArray : Fin mapSize → UInt8) (offset : Nat) (memory : Nat → UInt8) :
    (({ memory } : Buffer UInt8).copy offset (List.ofFn mBbArray)).memory =
      exported mBbArray offset memory := by
  funext i
  by_cases hi : offset ≤ i
  · by_cases hl : i - offset < mapSize
    · simp [Buffer.copy, exported, hi, hl]
    · simp [Buffer.copy, exported, hi, hl]
  · simp [Buffer.copy, exported, hi]

/-- The segment attached and reported. -/
def answering (shm : Segment) (shmAddr : Nat) (shmdt : Bool) : Segment :=
  { shm with shmat := some shmAddr, shmctl := true, shmdt }

variable (mBbArray : Fin mapSize → UInt8) (shm : Segment) (offset : UInt32) (p : Process σ)

/-- Wherever the segment is attached and however it is detached: either the map is copied
to its place inside the segment, or the export fails and changes nothing. -/
def StaysInside : Prop :=
  ∀ (shmAddr : Nat) (shmdt : Bool),
    let r := handleGetCodeCoverageShm mBbArray (answering shm shmAddr shmdt) offset p
    (offset.toNat + mapSize ≤ shm.shmSegsz.toNat ∧
        r.memory.memory = exported mBbArray offset.toNat shm.memory) ∨
      r.status = .error ∧ r.memory.memory = shm.memory

variable {shm offset}

theorem staysInside_of_le (ho : offset.toNat ≤ shm.shmSegsz.toNat) :
    StaysInside mBbArray shm offset p := by
  intro shmAddr shmdt
  by_cases hfit : mapSize ≤ (sizeBehind shm offset).toNat
  · have hr : handleGetCodeCoverageShm mBbArray (answering shm shmAddr shmdt) offset p = _ :=
      handleGetCodeCoverageShm_copied rfl rfl hfit
    rw [toNat_sizeBehind_of_le ho] at hfit
    left
    rw [hr]
    exact ⟨by omega, copy_memory mBbArray offset.toNat shm.memory⟩
  · have hr : handleGetCodeCoverageShm mBbArray (answering shm shmAddr shmdt) offset p = _ :=
      handleGetCodeCoverageShm_refused rfl (Or.inr (Nat.not_le.mp hfit))
    right
    rw [hr]
    exact ⟨rfl, rfl⟩

/-- Behind the segment the difference wraps to a size that the map always fits into. -/
theorem not_staysInside_of_lt (hlt : shm.shmSegsz.toNat < offset.toNat) :
    ¬StaysInside mBbArray shm offset p := by
  intro hp
  have hfit : mapSize ≤ (sizeBehind shm offset).toNat := by
    have ho := offset.toNat_lt
    rw [toNat_sizeBehind_of_lt hlt]
    unfold mapSize mapSizePow2
    omega
  have hr : handleGetCodeCoverageShm mBbArray (answering shm 0 true) offset p = _ :=
    handleGetCodeCoverageShm_copied rfl rfl hfit
  obtain ⟨hle, -⟩ | ⟨he, -⟩ := hp 0 true
  · omega
  · rw [hr] at he
    cases he

variable (shm offset)

/-- The export stays inside the segment for every offset but those behind its end. -/
theorem staysInside_iff : StaysInside mBbArray shm offset p ↔ offset.toNat ≤ shm.shmSegsz.toNat :=
  ⟨fun hp => Nat.not_lt.mp fun hlt => not_staysInside_of_lt mBbArray p hlt hp,
    staysInside_of_le mBbArray p⟩

/-- A segment of one page. -/
def page : Segment := ⟨4096, fun _ => 0, some 0, true, true⟩

theorem page_not_staysInside :
    ¬StaysInside (fun _ => 1) page 8192 { receiver := (), attached := [] } :=
  not_staysInside_of_lt _ _ (by decide)

end VpTesting.CoverageExport

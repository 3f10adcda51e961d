import VpTesting.CStrings
import VpTesting.HandlerCalls
import VpTesting.TestingReceiver

namespace VpTesting.SharedMemory

open VpTesting.ByteMemory VpTesting.CStrings VpTesting.Types VpTesting.HandlerCalls
  VpTesting.TestingReceiver

variable {σ : Type}

/-- The segment that a shared memory id names, and how the system calls on it end: where
`shmat` attaches it, if it does, and whether `shmctl` and `shmdt` succeed. Of the memory
from that address on, the first `shmSegsz` bytes are the segment. What is behind them need not
be mapped, and a function that touches it need not return. -/
structure Segment where
  shmSegsz : UInt64
  memory : Nat → UInt8
  shmat : Option Nat
  shmctl : Bool
  shmdt : Bool

/-- A process with the receiver object in it: the addresses it has segments attached at,
and those that `shmdt` failed on. -/
structure Process (σ : Type) where
  receiver : σ
  attached : List Nat
  undetached : List Nat := []

namespace Process

def attach (p : Process σ) (address : Nat) : Process σ :=
  { p with attached := address :: p.attached }

def detach (p : Process σ) (address : Nat) (shmdt : Bool) : Process σ :=
  if shmdt then { p with attached := p.attached.erase address }
  else { p with undetached := address :: p.undetached }

end Process

/-- The arguments of `handle_do_run_shm`, with the segment in place of its id. -/
structure RunArguments where
  startBreakpoint : List UInt8
  endBreakpoint : List UInt8
  mmioAddress : UInt64
  mmioLength : Nat
  shm : Segment
  offset : UInt32
  stopAfterStringTermination : Bool
  registerName : List UInt8

/-- What `handle_do_run_shm` returns and leaves behind, the handlers it called, and the
bytes it looked at itself. -/
structure RunReturned (σ : Type) where
  status : Status
  process : Process σ
  calls : List HandlerCall := []
  reads : List Nat := []

/-- The size that is left behind the offset, in the arithmetic of `size_t`. -/
def sizeBehind (shm : Segment) (offset : UInt32) : UInt64 := shm.shmSegsz - offset.toUInt64

def dataLength (a : RunArguments) : UInt64 :=
  if a.stopAfterStringTermination then
    UInt64.ofNat (strnlen a.shm.memory a.offset.toNat (sizeBehind a.shm a.offset - 1).toNat) + 1
  else sizeBehind a.shm a.offset

/-- The bytes that the search for the termination looks at. -/
def searched (a : RunArguments) : List Nat :=
  if a.stopAfterStringTermination then
    scanned a.shm.memory a.offset.toNat (sizeBehind a.shm a.offset - 1).toNat
  else []

/-- The call of `handle_do_run` with the `length` bytes behind the offset. -/
def runCall (a : RunArguments) (length : Nat) : HandlerCall :=
  .handleDoRun a.startBreakpoint a.endBreakpoint a.mmioAddress a.mmioLength length
    (slice a.shm.memory a.offset.toNat length) a.registerName

def handleDoRunShm (h : Handlers σ) (a : RunArguments) (p : Process σ) : RunReturned σ :=
  match a.shm.shmat with
  | none => { status := .error, process := p }
  | some mmioData =>
    let p := p.attach mmioData
    if a.shm.shmctl then
      let c := runCall a (dataLength a).toNat
      let returnStatus := (h c p.receiver).status
      let p := { p with receiver := (h c p.receiver).state }
      ⟨returnStatus, p.detach mmioData a.shm.shmdt, [c], searched a⟩
    else { status := .error, process := p }

/-- What `handle_get_code_coverage_shm` returns and leaves behind. -/
structure ExportReturned (σ : Type) where
  status : Status
  process : Process σ
  memory : Buffer UInt8

def handleGetCodeCoverageShm (mBbArray : Fin mapSize → UInt8) (shm : Segment) (offset : UInt32)
    (p : Process σ) : ExportReturned σ :=
  let memory : Buffer UInt8 := { memory := shm.memory }
  match shm.shmat with
  | none => ⟨.error, p, memory⟩
  | some shmAddr =>
    let p := p.attach shmAddr
    if shm.shmctl then
      if (sizeBehind shm offset).toNat < mapSize then ⟨.error, p, memory⟩
      else
        let memory := memory.copy offset.toNat (List.ofFn mBbArray)
        ⟨if shm.shmdt then .ok else .error, p.detach shmAddr shm.shmdt, memory⟩
    else ⟨.error, p, memory⟩

section

variable {shm : Segment} {offset : UInt32}

theorem toNat_sizeBehind_of_le (ho : offset.toNat ≤ shm.shmSegsz.toNat) :
    (sizeBehind shm offset).toNat = shm.shmSegsz.toNat - offset.toNat := by
  have hs := shm.shmSegsz.toNat_lt
  rw [sizeBehind, UInt64.toNat_sub, UInt32.toNat_toUInt64]
  omega

/-- Behind the end of the segment the size wraps around. -/
theorem toNat_sizeBehind_of_lt (ho : shm.shmSegsz.toNat < offset.toNat) :
    (sizeBehind shm offset).toNat = 2 ^ 64 + shm.shmSegsz.toNat - offset.toNat := by
  have hs := offset.toNat_lt
  rw [sizeBehind, UInt64.toNat_sub, UInt32.toNat_toUInt64]
  omega

end

section

variable {a : RunArguments} {h : Handlers σ} {p : Process σ} {mmioData : Nat}

theorem handleDoRunShm_unattached (ha : a.shm.shmat = none) :
    handleDoRunShm h a p = { status := .error, process := p } := by
  rw [handleDoRunShm, ha]

theorem handleDoRunShm_unreported (ha : a.shm.shmat = some mmioData) (hc : a.shm.shmctl = false) :
    handleDoRunShm h a p = { status := .error, process := p.attach mmioData } := by
  simp [handleDoRunShm, ha, hc]

theorem handleDoRunShm_reported (ha : a.shm.shmat = some mmioData) (hc : a.shm.shmctl = true) :
    handleDoRunShm h a p =
      let c := runCall a (dataLength a).toNat
      ⟨(h c p.receiver).status,
        ({ p.attach mmioData with receiver := (h c p.receiver).state } : Process σ).detach mmioData
          a.shm.shmdt, [c], searched a⟩ := by
  simp only [handleDoRunShm, ha, hc]
  rfl

end

section

variable {mBbArray : Fin mapSize → UInt8} {shm : Segment} {offset : UInt32} {p : Process σ}
  {shmAddr : Nat}

theorem handleGetCodeCoverageShm_unattached (ha : shm.shmat = none) :
    handleGetCodeCoverageShm mBbArray shm offset p = ⟨.error, p, { memory := shm.memory }⟩ := by
  simp only [handleGetCodeCoverageShm, ha]

/-- Returned early, with the segment attached. -/
theorem handleGetCodeCoverageShm_refused (ha : shm.shmat = some shmAddr)
    (hc : shm.shmctl = false ∨ (sizeBehind shm offset).toNat < mapSize) :
    handleGetCodeCoverageShm mBbArray shm offset p =
      ⟨.error, p.attach shmAddr, { memory := shm.memory }⟩ := by
  obtain hc | hl := hc
  · simp [handleGetCodeCoverageShm, ha, hc]
  · simp only [handleGetCodeCoverageShm, ha, if_pos hl, ite_self]

theorem handleGetCodeCoverageShm_copied (ha : shm.shmat = some shmAddr) (hc : shm.shmctl = true)
    (hl : mapSize ≤ (sizeBehind shm offset).toNat) :
    handleGetCodeCoverageShm mBbArray shm offset p =
      ⟨if shm.shmdt then .ok else .error, (p.attach shmAddr).detach shmAddr shm.shmdt,
        ({ memory := shm.memory } : Buffer UInt8).copy offset.toNat (List.ofFn mBbArray)⟩ := by
  simp only [handleGetCodeCoverageShm, ha, hc, if_true, if_neg (Nat.not_lt.mpr hl)]

end

end VpTesting.SharedMemory

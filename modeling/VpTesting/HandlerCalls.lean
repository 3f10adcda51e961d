import VpTesting.TestingCommunication

namespace VpTesting.HandlerCalls

open VpTesting.ByteMemory VpTesting.Types VpTesting.TestingCommunication

/-- One call of a handler with its arguments. References are passed with what
they refer to on entry, and a pointer with a length as the bytes it selects. -/
inductive HandlerCall
  | handleContinue (lastEvent : Event)
  | handleKill (gracefully : Bool)
  | handleSetBreakpoint (symbol : List UInt8) (offset : Int32)
  | handleRemoveBreakpoint (symName : List UInt8)
  | handleEnableMmioTracking (startAddress endAddress : UInt64) (mode : UInt8)
  | handleDisableMmioTracking
  | handleSetMmioValue (length : Nat) (value : List UInt8)
  | handleAddToMmioReadQueue (address : UInt64) (length dataLength : Nat) (data : List UInt8)
  | handleSetCpuInterruptTrigger (interruptAddress triggerAddress : UInt64)
  | handleEnableCodeCoverage
  | handleResetCodeCoverage
  | handleDisableCodeCoverage
  | handleGetCodeCoverage (coverage : Option (List UInt8))
  | handleGetCodeCoverageShm (shmId : Int32) (offset : UInt32)
  | handleSetReturnCodeAddress (address : UInt64) (regName : List UInt8)
  | handleGetReturnCode (code : UInt64)
  | handleDoRun (startBreakpoint endBreakpoint : List UInt8) (mmioAddress : UInt64)
      (mmioLength mmioDataLength : Nat) (mmioData registerName : List UInt8)
  | handleDoRunShm (startBreakpoint endBreakpoint : List UInt8) (mmioAddress : UInt64)
      (mmioLength : Nat) (shmId : Int32) (offset : UInt32) (stopAfterStringTermination : Bool)
      (registerName : List UInt8)
  | handleSetErrorSymbol (symbol : List UInt8)
  | handleSetFixedRead (count : Nat) (data : List UInt8)
  | handleGetCpuPc (pc : UInt64)
  | handleJumpCpuTo (address : UInt64)
  | handleStoreCpuRegister
  | handleRestoreCpuRegister
  deriving DecidableEq

/-- What the parameters of a handler that it may write hold when it returns. The
coverage pointer is such a parameter too, although it is passed by value. -/
def HandlerCall.Out : HandlerCall → Type
  | .handleContinue _ => Event
  | .handleGetCodeCoverage _ => Option (List UInt8)
  | .handleGetReturnCode _ | .handleGetCpuPc _ => UInt64
  | _ => Unit

structure Returned (σ : Type) (c : HandlerCall) where
  status : Status
  out : c.Out
  state : σ

/-- The handlers of a receiver class whose objects have states in `σ`. -/
abbrev Handlers (σ : Type) := (c : HandlerCall) → σ → Returned σ c

/-- The parameters as the handler found them. -/
def HandlerCall.unwritten : (c : HandlerCall) → c.Out
  | .handleContinue lastEvent => lastEvent
  | .handleGetCodeCoverage coverage => coverage
  | .handleGetReturnCode code => code
  | .handleGetCpuPc pc => pc
  | .handleKill .. | .handleSetBreakpoint .. | .handleRemoveBreakpoint ..
  | .handleEnableMmioTracking .. | .handleDisableMmioTracking | .handleSetMmioValue ..
  | .handleAddToMmioReadQueue .. | .handleSetCpuInterruptTrigger .. | .handleEnableCodeCoverage
  | .handleResetCodeCoverage | .handleDisableCodeCoverage | .handleGetCodeCoverageShm ..
  | .handleSetReturnCodeAddress .. | .handleDoRun .. | .handleDoRunShm ..
  | .handleSetErrorSymbol .. | .handleSetFixedRead .. | .handleJumpCpuTo ..
  | .handleStoreCpuRegister | .handleRestoreCpuRegister => ()

/-- Handlers that succeed and write nothing. -/
def silent (σ : Type) : Handlers σ := fun c v => ⟨.ok, c.unwritten, v⟩

/-- Memory that is read although nothing was written there: what lies behind the
request payload, and the local variables declared without an initializer. -/
structure Indeterminate where
  beyond : Nat → UInt8
  eventType : UInt8
  exitCode : UInt64
  cpuPc : UInt64

def Indeterminate.zero : Indeterminate := ⟨fun _ => 0, 0, 0, 0⟩

/-- A region of the request payload that is read, or handed on as a slice. -/
structure Access where
  start : Nat
  length : Nat
  deriving DecidableEq

/-- The state while a request is handled: the receiver object, the response that
is filled in, and the handler calls and payload accesses made so far. -/
structure Handling (σ : Type) where
  state : σ
  res : Response := {}
  calls : List HandlerCall := []
  accesses : List Access := []

namespace Handling

variable {σ : Type}

def touch (s : Handling σ) (start length : Nat) : Handling σ :=
  { s with accesses := s.accesses ++ [⟨start, length⟩] }

def reject (s : Handling σ) : Handling σ := { s with res := respondMalformed s.res }

/-- A handler was called, and the status it returned stored in the response. -/
def call (s : Handling σ) (h : Handlers σ) (c : HandlerCall) : Handling σ :=
  { s with
    state := (h c s.state).state
    res := { s.res with responseStatus := (h c s.state).status.toByte }
    calls := s.calls ++ [c] }

def setStatus (s : Handling σ) (status : Status) : Handling σ :=
  { s with res := { s.res with responseStatus := status.toByte } }

def setData (s : Handling σ) (data : Option (List UInt8)) (dataLength : UInt32) : Handling σ :=
  { s with res := { s.res with data, dataLength } }

variable (s : Handling σ) (h : Handlers σ) (c : HandlerCall) (start length : Nat)
  (status : Status) (data : Option (List UInt8)) (dataLength : UInt32)

@[simp] theorem touch_state : (s.touch start length).state = s.state := rfl
@[simp] theorem touch_res : (s.touch start length).res = s.res := rfl
@[simp] theorem touch_calls : (s.touch start length).calls = s.calls := rfl
@[simp] theorem touch_accesses :
    (s.touch start length).accesses = s.accesses ++ [⟨start, length⟩] := rfl

@[simp] theorem reject_state : s.reject.state = s.state := rfl
@[simp] theorem reject_res : s.reject.res = respondMalformed s.res := rfl
@[simp] theorem reject_calls : s.reject.calls = s.calls := rfl
@[simp] theorem reject_accesses : s.reject.accesses = s.accesses := rfl

@[simp] theorem call_res :
    (s.call h c).res = { s.res with responseStatus := (h c s.state).status.toByte } := rfl
@[simp] theorem call_calls : (s.call h c).calls = s.calls ++ [c] := rfl
@[simp] theorem call_accesses : (s.call h c).accesses = s.accesses := rfl
@[simp] theorem call_state : (s.call h c).state = (h c s.state).state := rfl

@[simp] theorem setStatus_res :
    (s.setStatus status).res = { s.res with responseStatus := status.toByte } := rfl
@[simp] theorem setStatus_calls : (s.setStatus status).calls = s.calls := rfl
@[simp] theorem setStatus_accesses : (s.setStatus status).accesses = s.accesses := rfl
@[simp] theorem setStatus_state : (s.setStatus status).state = s.state := rfl

@[simp] theorem setData_res :
    (s.setData data dataLength).res = { s.res with data, dataLength } := rfl
@[simp] theorem setData_calls : (s.setData data dataLength).calls = s.calls := rfl
@[simp] theorem setData_accesses : (s.setData data dataLength).accesses = s.accesses := rfl
@[simp] theorem setData_state : (s.setData data dataLength).state = s.state := rfl

end Handling

variable {σ : Type}

def checkExactRequestLength (req : Request) (length : Nat) : StateM (Handling σ) Bool := fun s =>
  if req.dataLength.toNat ≠ length then (false, s.reject) else (true, s)

def checkMinRequestLength (req : Request) (length : Nat) : StateM (Handling σ) Bool := fun s =>
  if req.dataLength.toNat < length then (false, s.reject) else (true, s)

def readByte (m : Nat → UInt8) (start : Nat) : StateM (Handling σ) UInt8 := fun s =>
  (m start, s.touch start 1)

def readInt32 (m : Nat → UInt8) (start : Nat) : StateM (Handling σ) UInt32 := fun s =>
  ((bytesToInt32 m start).toUInt32, s.touch start 4)

def readInt64 (m : Nat → UInt8) (start : Nat) : StateM (Handling σ) UInt64 := fun s =>
  ((bytesToInt64 m start).toUInt64, s.touch start 8)

/-- A string built from the payload, or a pointer into it passed with a length. -/
def readSlice (m : Nat → UInt8) (start length : Nat) : StateM (Handling σ) (List UInt8) := fun s =>
  (slice m start length, s.touch start length)

def invoke (h : Handlers σ) (c : HandlerCall) : StateM (Handling σ) c.Out := fun s =>
  ((h c s.state).out, s.call h c)

def setStatus (status : Status) : StateM (Handling σ) Unit := fun s => ((), s.setStatus status)

def setData (data : Option (List UInt8)) (dataLength : UInt32) : StateM (Handling σ) Unit :=
  fun s => ((), s.setData data dataLength)

/-- Call a handler that produces no data. -/
def invokeWithoutData (h : Handlers σ) (c : HandlerCall) : StateM (Handling σ) Unit := do
  let _ ← invoke h c
  setData none 0

end VpTesting.HandlerCalls

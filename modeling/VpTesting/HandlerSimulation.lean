import VpTesting.HandleRequest
import VpTesting.StateRelations

namespace VpTesting.HandlerSimulation

open VpTesting.ByteMemory VpTesting.Types VpTesting.TestingCommunication VpTesting.HandlerCalls
  VpTesting.HandleRequest VpTesting.StateRelations

variable {σ τ : Type}

/-- The command whose branch makes the call. -/
def branch : HandlerCall → Command
  | .handleContinue .. => .«continue»
  | .handleKill .. => .kill
  | .handleSetBreakpoint .. => .setBreakpoint
  | .handleRemoveBreakpoint .. => .removeBreakpoint
  | .handleEnableMmioTracking .. => .enableMmioTracking
  | .handleDisableMmioTracking => .disableMmioTracking
  | .handleSetMmioValue .. => .setMmioValue
  | .handleAddToMmioReadQueue .. => .addToMmioReadQueue
  | .handleSetCpuInterruptTrigger .. => .setCpuInterruptTrigger
  | .handleEnableCodeCoverage => .enableCodeCoverage
  | .handleResetCodeCoverage => .resetCodeCoverage
  | .handleDisableCodeCoverage => .disableCodeCoverage
  | .handleGetCodeCoverage .. => .getCodeCoverage
  | .handleGetCodeCoverageShm .. => .getCodeCoverageShm
  | .handleSetReturnCodeAddress .. => .setReturnCodeAddress
  | .handleGetReturnCode .. => .getReturnCode
  | .handleDoRun .. => .doRun
  | .handleDoRunShm .. => .doRunShm
  | .handleSetErrorSymbol .. => .setErrorSymbol
  | .handleSetFixedRead .. => .setFixedRead
  | .handleGetCpuPc .. => .getCpuPc
  | .handleJumpCpuTo .. => .jumpCpuTo
  | .handleStoreCpuRegister => .storeCpuRegisters
  | .handleRestoreCpuRegister => .restoreCpuRegisters

/-- The calls of a command end in the same way in related states, and in related states. -/
def Simulates (R : σ → τ → Prop) (h : Handlers σ) (h' : Handlers τ) (k : Command) : Prop :=
  ∀ c, branch c = k → ∀ v w, R v w →
    (h c v).status = (h' c w).status ∧ (h c v).out = (h' c w).out ∧ R (h c v).state (h' c w).state

/-- Requests that were handled alike so far. -/
def Alike (R : σ → τ → Prop) (s : Handling σ) (t : Handling τ) : Prop :=
  R s.state t.state ∧ s.res = t.res ∧ s.calls = t.calls ∧ s.accesses = t.accesses

section

variable {R : σ → τ → Prop} {h : Handlers σ} {h' : Handlers τ} {k : Command} (req : Request)
  (m : Nat → UInt8) (start length : Nat)

theorem agree_exact :
    Agree (Alike R) (checkExactRequestLength req length) (checkExactRequestLength req length) := by
  rintro s t ⟨hstate, hres, hcalls, haccesses⟩
  by_cases hl : req.dataLength.toNat = length
  · simp [hl, Alike, hstate, hres, hcalls, haccesses]
  · simp [hl, Alike, hstate, hres, hcalls, haccesses]

theorem agree_min :
    Agree (Alike R) (checkMinRequestLength req length) (checkMinRequestLength req length) := by
  rintro s t ⟨hstate, hres, hcalls, haccesses⟩
  by_cases hl : req.dataLength.toNat < length
  · simp [hl, Alike, hstate, hres, hcalls, haccesses]
  · simp [hl, Alike, hstate, hres, hcalls, haccesses]

theorem agree_readByte : Agree (Alike R) (readByte m start) (readByte m start) := by
  rintro s t ⟨hstate, hres, hcalls, haccesses⟩
  simp [Alike, hstate, hres, hcalls, haccesses]

theorem agree_readInt32 : Agree (Alike R) (readInt32 m start) (readInt32 m start) := by
  rintro s t ⟨hstate, hres, hcalls, haccesses⟩
  simp [Alike, hstate, hres, hcalls, haccesses]

theorem agree_readInt64 : Agree (Alike R) (readInt64 m start) (readInt64 m start) := by
  rintro s t ⟨hstate, hres, hcalls, haccesses⟩
  simp [Alike, hstate, hres, hcalls, haccesses]

theorem agree_readSlice :
    Agree (Alike R) (readSlice m start length) (readSlice m start length) := by
  rintro s t ⟨hstate, hres, hcalls, haccesses⟩
  simp [Alike, hstate, hres, hcalls, haccesses]

theorem agree_setStatus (status : Status) :
    Agree (Alike R) (setStatus status) (setStatus status) := by
  rintro s t ⟨hstate, hres, hcalls, haccesses⟩
  simp [Alike, hstate, hres, hcalls, haccesses]

theorem agree_setData (data : Option (List UInt8)) (dataLength : UInt32) :
    Agree (Alike R) (setData data dataLength) (setData data dataLength) := by
  rintro s t ⟨hstate, hres, hcalls, haccesses⟩
  simp [Alike, hstate, hres, hcalls, haccesses]

theorem agree_invoke (hh : Simulates R h h' k) (c : HandlerCall) (hc : branch c = k) :
    Agree (Alike R) (invoke h c) (invoke h' c) := by
  rintro s t ⟨hstate, hres, hcalls, haccesses⟩
  obtain ⟨hstatus, hout, hstate'⟩ := hh c hc _ _ hstate
  simp [Alike, hout, hstatus, hstate', hres, hcalls, haccesses]

theorem agree_invokeWithoutData (hh : Simulates R h h' k) (c : HandlerCall)
    (hc : branch c = k) :
    Agree (Alike R) (invokeWithoutData h c) (invokeWithoutData h' c) :=
  (agree_invoke hh c hc).bind fun _ => agree_setData none 0

theorem agree_handleRequest (hh : Simulates R h h' k)
    (hk : Command.ofByte req.requestCommand = some k) (g : Indeterminate) :
    Agree (Alike R) (handleRequest h g req) (handleRequest h' g req) := by
  unfold handleRequest
  simp only [hk]
  cases k <;> simp only
  case «continue» =>
    apply (agree_exact req 0).guard
    exact (agree_invoke hh _ rfl).bind fun _ => agree_setData _ _
  case getReturnCode | getCpuPc =>
    apply (agree_exact req 0).guard
    exact (agree_invoke hh _ rfl).bind fun _ => agree_setData _ _
  case getCodeCoverage =>
    apply (agree_exact req 0).guard
    exact (agree_invoke hh _ rfl).bind fun _ => agree_setStatus _
  case setMmioValue =>
    apply (agree_min req 1).guard
    apply Agree.get
    rintro s t ⟨-, hres, -, -⟩
    rw [hres]
    apply (agree_readSlice _ _ _).bind
    intro value
    exact agree_invokeWithoutData hh _ rfl
  case disableMmioTracking | enableCodeCoverage | disableCodeCoverage |
      resetCodeCoverage | storeCpuRegisters | restoreCpuRegisters =>
    apply (agree_exact req 0).guard
    exact agree_invokeWithoutData hh _ rfl
  case kill =>
    apply (agree_exact req 1).guard
    apply (agree_readByte _ _).bind
    intro gracefully
    exact agree_invokeWithoutData hh _ rfl
  case jumpCpuTo =>
    apply (agree_exact req 8).guard
    apply (agree_readInt64 _ _).bind
    intro address
    exact agree_invokeWithoutData hh _ rfl
  case setCpuInterruptTrigger =>
    apply (agree_exact req 16).guard
    apply (agree_readInt64 _ _).bind
    intro interruptAddress
    apply (agree_readInt64 _ _).bind
    intro triggerAddress
    exact agree_invokeWithoutData hh _ rfl
  case getCodeCoverageShm =>
    apply (agree_exact req 8).guard
    apply (agree_readInt32 _ _).bind
    intro shmId
    apply (agree_readInt32 _ _).bind
    intro offset
    exact agree_invokeWithoutData hh _ rfl
  case enableMmioTracking =>
    apply (agree_exact req 17).guard
    apply (agree_readInt64 _ _).bind
    intro startAddress
    apply (agree_readInt64 _ _).bind
    intro endAddress
    apply (agree_readByte _ _).bind
    intro mode
    exact agree_invokeWithoutData hh _ rfl
  case setBreakpoint =>
    apply (agree_min req 2).guard
    apply (agree_readByte _ _).bind
    intro offset
    apply (agree_readSlice _ _ _).bind
    intro symbolName
    exact agree_invokeWithoutData hh _ rfl
  case removeBreakpoint | setErrorSymbol =>
    apply (agree_min req 1).guard
    apply (agree_readSlice _ _ _).bind
    intro symbol
    exact agree_invokeWithoutData hh _ rfl
  case setReturnCodeAddress =>
    apply (agree_min req 5).guard
    apply (agree_readInt64 _ _).bind
    intro address
    apply (agree_readSlice _ _ _).bind
    intro regName
    exact agree_invokeWithoutData hh _ rfl
  case setFixedRead =>
    apply (agree_min req 10).guard
    apply (agree_readByte _ _).bind
    intro count
    apply (agree_exact req _).guard
    apply (agree_readSlice _ _ _).bind
    intro data
    exact agree_invokeWithoutData hh _ rfl
  case addToMmioReadQueue =>
    apply (agree_min req 17).guard
    apply (agree_readInt64 _ _).bind
    intro address
    apply (agree_readInt32 _ _).bind
    intro length
    apply (agree_readInt32 _ _).bind
    intro dataLength
    apply (agree_exact req _).guard
    apply (agree_readSlice _ _ _).bind
    intro data
    exact agree_invokeWithoutData hh _ rfl
  case doRun =>
    apply (agree_min req 20).guard
    apply (agree_readInt64 _ _).bind
    intro address
    apply (agree_readInt32 _ _).bind
    intro length
    apply (agree_readInt32 _ _).bind
    intro dataLength
    apply (agree_readByte _ _).bind
    intro startBreakpointLength
    apply (agree_readByte _ _).bind
    intro endBreakpointLength
    apply (agree_readByte _ _).bind
    intro registerNameLength
    apply (agree_exact req _).guard
    apply (agree_readSlice _ _ _).bind
    intro startBreakpoint
    apply (agree_readSlice _ _ _).bind
    intro endBreakpoint
    apply (agree_readSlice _ _ _).bind
    intro registerName
    apply (agree_readSlice _ _ _).bind
    intro data
    exact agree_invokeWithoutData hh _ rfl
  case doRunShm =>
    apply (agree_min req 25).guard
    apply (agree_readInt64 _ _).bind
    intro address
    apply (agree_readInt32 _ _).bind
    intro length
    apply (agree_readInt32 _ _).bind
    intro shmId
    apply (agree_readInt32 _ _).bind
    intro offset
    apply (agree_readByte _ _).bind
    intro stopAfterStringTermination
    apply (agree_readByte _ _).bind
    intro startBreakpointLength
    apply (agree_readByte _ _).bind
    intro endBreakpointLength
    apply (agree_readByte _ _).bind
    intro registerNameLength
    apply (agree_exact req _).guard
    apply (agree_readSlice _ _ _).bind
    intro startBreakpoint
    apply (agree_readSlice _ _ _).bind
    intro endBreakpoint
    apply (agree_readSlice _ _ _).bind
    intro registerName
    exact agree_invokeWithoutData hh _ rfl

/-- A request to simulating handlers has one response, and leads to related states. -/
theorem handleRequest_of_simulates
    (hh : ∀ k, Command.ofByte req.requestCommand = some k → Simulates R h h' k)
    (g : Indeterminate) {v : σ} {w : τ} (hvw : R v w) :
    ((handleRequest h g req).run { state := v }).2.res =
        ((handleRequest h' g req).run { state := w }).2.res ∧
      R ((handleRequest h g req).run { state := v }).2.state
        ((handleRequest h' g req).run { state := w }).2.state := by
  cases hk : Command.ofByte req.requestCommand with
  | none =>
    simp only [handleRequest, hk]
    exact ⟨rfl, hvw⟩
  | some k =>
    obtain ⟨-, hstate, hres, -⟩ :=
      agree_handleRequest req (hh k hk) hk g { state := v } { state := w } ⟨hvw, rfl, rfl, rfl⟩
    exact ⟨hres, hstate⟩

/-- What every call of the command keeps, a request keeps. -/
theorem keeps_handleRequest {P : σ → Prop}
    (hP : ∀ c, Command.ofByte req.requestCommand = some (branch c) →
      ∀ v, P v → P (h c v).state) (g : Indeterminate) {v : σ} (hv : P v) :
    P ((handleRequest h g req).run { state := v }).2.state := by
  have hh : ∀ k, Command.ofByte req.requestCommand = some k →
      Simulates (fun v w => v = w ∧ P v) h h k := by
    rintro k hk c rfl v _ ⟨rfl, hv⟩
    exact ⟨rfl, rfl, rfl, hP c hk v hv⟩
  exact (handleRequest_of_simulates req hh g (⟨rfl, hv⟩ : v = v ∧ P v)).2.2

end

end VpTesting.HandlerSimulation

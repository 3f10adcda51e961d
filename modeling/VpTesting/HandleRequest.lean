import VpTesting.HandlerCalls
import VpTesting.StateRules

namespace VpTesting.HandleRequest

open VpTesting.ByteMemory VpTesting.Types VpTesting.TestingCommunication VpTesting.HandlerCalls
  VpTesting.StateRules

variable {σ : Type}

/-- The dispatch on the command byte. Sums that a 32-bit length takes part in are
unsigned 32-bit sums, `SET_MMIO_VALUE` passes the length of the response, and the
coverage pointer is passed by value, so the handler's copy stays with the handler.
A read through a null pointer is only recorded here; `Crashes` says where it ends. -/
def handleRequest (h : Handlers σ) (g : Indeterminate) (req : Request) :
    StateM (Handling σ) Unit := do
  let m := view (req.data.getD []) g.beyond
  match Command.ofByte req.requestCommand with
  | some .«continue» =>
    unless ← checkExactRequestLength req 0 do return
    let lastEvent ← invoke h (.handleContinue { event := g.eventType })
    let dataLength := lastEvent.additionalDataLength + 1
    let data := (List.replicate dataLength.toNat 0).set 0 lastEvent.event
    setData (store data 1
      ((lastEvent.additionData.getD []).take lastEvent.additionalDataLength.toNat)) dataLength
  | some .kill =>
    unless ← checkExactRequestLength req 1 do return
    let gracefully ← readByte m 0
    invokeWithoutData h (.handleKill (gracefully != 0))
  | some .setBreakpoint =>
    unless ← checkMinRequestLength req 2 do return
    let offset ← readByte m 0
    let symbolName ← readSlice m 1 (req.dataLength.toNat - 1)
    invokeWithoutData h (.handleSetBreakpoint symbolName offset.toUInt32.toInt32)
  | some .removeBreakpoint =>
    unless ← checkMinRequestLength req 1 do return
    let symbolName ← readSlice m 0 req.dataLength.toNat
    invokeWithoutData h (.handleRemoveBreakpoint symbolName)
  | some .enableMmioTracking =>
    unless ← checkExactRequestLength req 17 do return
    let startAddress ← readInt64 m 0
    let endAddress ← readInt64 m 8
    let mode ← readByte m 16
    invokeWithoutData h (.handleEnableMmioTracking startAddress endAddress mode)
  | some .disableMmioTracking =>
    unless ← checkExactRequestLength req 0 do return
    invokeWithoutData h .handleDisableMmioTracking
  | some .setMmioValue =>
    unless ← checkMinRequestLength req 1 do return
    let length := (← get).res.dataLength.toNat
    let value ← readSlice m 4 length
    invokeWithoutData h (.handleSetMmioValue length value)
  | some .addToMmioReadQueue =>
    unless ← checkMinRequestLength req 17 do return
    let address ← readInt64 m 0
    let length ← readInt32 m 8
    let dataLength ← readInt32 m 12
    unless ← checkExactRequestLength req (16 + dataLength).toNat do return
    let data ← readSlice m 16 dataLength.toNat
    invokeWithoutData h (.handleAddToMmioReadQueue address length.toNat dataLength.toNat data)
  | some .setCpuInterruptTrigger =>
    unless ← checkExactRequestLength req 16 do return
    let interruptAddress ← readInt64 m 0
    let triggerAddress ← readInt64 m 8
    invokeWithoutData h (.handleSetCpuInterruptTrigger interruptAddress triggerAddress)
  | some .enableCodeCoverage =>
    unless ← checkExactRequestLength req 0 do return
    invokeWithoutData h .handleEnableCodeCoverage
  | some .disableCodeCoverage =>
    unless ← checkExactRequestLength req 0 do return
    invokeWithoutData h .handleDisableCodeCoverage
  | some .getCodeCoverage =>
    unless ← checkExactRequestLength req 0 do return
    let coverage : Option (List UInt8) := none
    let _ ← invoke h (.handleGetCodeCoverage coverage)
    match coverage with
    | some coverage =>
      let size := coverage.length
      let data := List.replicate (size + 4) 0
      let data := int32ToBytes (UInt32.ofNat size).toInt32 data 0
      setData (store data 4 coverage) (UInt32.ofNat (size + 4))
    | none => setStatus .error
  | some .getCodeCoverageShm =>
    unless ← checkExactRequestLength req 8 do return
    let shmId ← readInt32 m 0
    let offset ← readInt32 m 4
    invokeWithoutData h (.handleGetCodeCoverageShm shmId.toInt32 offset)
  | some .resetCodeCoverage =>
    unless ← checkExactRequestLength req 0 do return
    invokeWithoutData h .handleResetCodeCoverage
  | some .setReturnCodeAddress =>
    unless ← checkMinRequestLength req 5 do return
    let address ← readInt64 m 0
    let regName ← readSlice m 4 (req.dataLength.toNat - 4)
    invokeWithoutData h (.handleSetReturnCodeAddress address regName)
  | some .getReturnCode =>
    unless ← checkExactRequestLength req 0 do return
    let exitCode ← invoke h (.handleGetReturnCode g.exitCode)
    setData (int64ToBytes exitCode.toInt64 (List.replicate 8 0) 0) 8
  | some .doRun =>
    unless ← checkMinRequestLength req 20 do return
    let address ← readInt64 m 0
    let length ← readInt32 m 8
    let dataLength ← readInt32 m 12
    let startBreakpointLength ← readByte m 16
    let endBreakpointLength ← readByte m 17
    let registerNameLength ← readByte m 18
    unless ← checkExactRequestLength req (UInt32.ofNat (19 + startBreakpointLength.toNat +
      endBreakpointLength.toNat + registerNameLength.toNat) + dataLength).toNat do return
    let startBreakpoint ← readSlice m 19 startBreakpointLength.toNat
    let endBreakpoint ← readSlice m (startBreakpointLength.toNat + 19) endBreakpointLength.toNat
    let registerName ← readSlice m
      (startBreakpointLength.toNat + endBreakpointLength.toNat + 19) registerNameLength.toNat
    let data ← readSlice m (19 + startBreakpointLength.toNat + endBreakpointLength.toNat +
      registerNameLength.toNat) dataLength.toNat
    invokeWithoutData h (.handleDoRun startBreakpoint endBreakpoint address length.toNat
      dataLength.toNat data registerName)
  | some .doRunShm =>
    unless ← checkMinRequestLength req 25 do return
    let address ← readInt64 m 0
    let length ← readInt32 m 8
    let shmId ← readInt32 m 12
    let offset ← readInt32 m 16
    let stopAfterStringTermination ← readByte m 20
    let startBreakpointLength ← readByte m 21
    let endBreakpointLength ← readByte m 22
    let registerNameLength ← readByte m 23
    unless ← checkExactRequestLength req (24 + startBreakpointLength.toNat +
      endBreakpointLength.toNat + registerNameLength.toNat) do return
    let startBreakpoint ← readSlice m 24 startBreakpointLength.toNat
    let endBreakpoint ← readSlice m (startBreakpointLength.toNat + 24) endBreakpointLength.toNat
    let registerName ← readSlice m
      (startBreakpointLength.toNat + endBreakpointLength.toNat + 24) registerNameLength.toNat
    invokeWithoutData h (.handleDoRunShm startBreakpoint endBreakpoint address length.toNat
      shmId.toInt32 offset (stopAfterStringTermination != 0) registerName)
  | some .setErrorSymbol =>
    unless ← checkMinRequestLength req 1 do return
    let symbol ← readSlice m 0 req.dataLength.toNat
    invokeWithoutData h (.handleSetErrorSymbol symbol)
  | some .setFixedRead =>
    unless ← checkMinRequestLength req 10 do return
    let count ← readByte m 0
    unless ← checkExactRequestLength req (1 + count.toNat * 9) do return
    let data ← readSlice m 1 (count.toNat * 9)
    invokeWithoutData h (.handleSetFixedRead count.toNat data)
  | some .getCpuPc =>
    unless ← checkExactRequestLength req 0 do return
    let cpuPc ← invoke h (.handleGetCpuPc g.cpuPc)
    setData (int64ToBytes cpuPc.toInt64 (List.replicate 8 0) 0) 8
  | some .jumpCpuTo =>
    unless ← checkExactRequestLength req 8 do return
    let address ← readInt64 m 0
    invokeWithoutData h (.handleJumpCpuTo address)
  | some .storeCpuRegisters =>
    unless ← checkExactRequestLength req 0 do return
    invokeWithoutData h .handleStoreCpuRegister
  | some .restoreCpuRegisters =>
    unless ← checkExactRequestLength req 0 do return
    invokeWithoutData h .handleRestoreCpuRegister
  | none => return

/-- The handler calls a request leads to. -/
def callsFor (h : Handlers σ) (g : Indeterminate) (v : σ) (req : Request) : List HandlerCall :=
  ((handleRequest h g req).run { state := v }).2.calls

/-- The regions of the payload that are read while a request is handled. -/
def accessesFor (h : Handlers σ) (g : Indeterminate) (v : σ) (req : Request) : List Access :=
  ((handleRequest h g req).run { state := v }).2.accesses

/-- The additional data of an event can be copied behind its type byte: there is a pointer to
them, and the size of the response data does not wrap around to 0. -/
def Copyable (e : Event) : Prop :=
  (0 < e.additionalDataLength.toNat → e.additionData.isSome) ∧
    e.additionalDataLength.toNat < 2 ^ 32 - 1

instance (e : Event) : Decidable (Copyable e) := inferInstanceAs (Decidable (_ ∧ _))

/-- Handling the request ends the process: a byte is read through the null pointer of a request
without data, or additional data are copied from or to where there is no memory. -/
def Crashes (h : Handlers σ) (g : Indeterminate) (v : σ) (req : Request) : Prop :=
  (req.data = none ∧ ∃ a ∈ accessesFor h g v req, 0 < a.length) ∨
    ∃ lastEvent, .handleContinue lastEvent ∈ callsFor h g v req ∧
      ¬Copyable (h (.handleContinue lastEvent) v).out

variable (req : Request) (length start : Nat) (m : Nat → UInt8) (s : Handling σ)
  (h : Handlers σ) (c : HandlerCall)

@[simp] theorem run_checkExactRequestLength :
    (checkExactRequestLength req length).run s =
      if req.dataLength.toNat ≠ length then (false, s.reject) else (true, s) := rfl

@[simp] theorem run_checkMinRequestLength :
    (checkMinRequestLength req length).run s =
      if req.dataLength.toNat < length then (false, s.reject) else (true, s) := rfl

@[simp] theorem run_readByte : (readByte m start).run s = (m start, s.touch start 1) := rfl

@[simp] theorem run_readInt32 :
    (readInt32 m start).run s = ((bytesToInt32 m start).toUInt32, s.touch start 4) := rfl

@[simp] theorem run_readInt64 :
    (readInt64 m start).run s = ((bytesToInt64 m start).toUInt64, s.touch start 8) := rfl

@[simp] theorem run_readSlice :
    (readSlice m start length).run s = (slice m start length, s.touch start length) := rfl

@[simp] theorem run_invoke : (invoke h c).run s = ((h c s.state).out, s.call h c) := rfl

@[simp] theorem run_setStatus (status : Status) :
    (setStatus status).run s = ((), s.setStatus status) := rfl

@[simp] theorem run_setData (data : Option (List UInt8)) (dataLength : UInt32) :
    (setData data dataLength).run s = ((), s.setData data dataLength) := rfl

@[simp] theorem run_invokeWithoutData :
    (invokeWithoutData h c).run s = ((), (s.call h c).setData none 0) := rfl

variable {α : Type} {P : Handling σ → Prop} {Q : Unit → Handling σ → Prop}

/-- A read records its access and has a value that the rest continues with. -/
theorem triple_read {start length : Nat} {x : StateM (Handling σ) α} {a : α}
    {f : α → StateM (Handling σ) Unit} (hx : ∀ s, x.run s = (a, s.touch start length))
    (hP : ∀ s, P s → P (s.touch start length)) (hf : Triple P (f a) Q) :
    Triple P (x >>= f) Q := by
  intro s hs
  rw [run_bind, hx]
  exact hf _ (hP s hs)

theorem triple_exact {req : Request} {length : Nat} {x : StateM (Handling σ) Unit}
    (hr : ∀ s, P s → Q () s.reject) (hx : req.dataLength.toNat = length → Triple P x Q) :
    Triple P (checkExactRequestLength req length >>= fun b => if b = true then x else pure ())
      Q := by
  apply Triple.guard ?_ hx
  intro s hs
  by_cases hl : req.dataLength.toNat = length
  · simpa [hl] using hs
  · simpa [hl] using hr s hs

theorem triple_min {req : Request} {length : Nat} {x : StateM (Handling σ) Unit}
    (hr : ∀ s, P s → Q () s.reject) (hx : length ≤ req.dataLength.toNat → Triple P x Q) :
    Triple P (checkMinRequestLength req length >>= fun b => if b = true then x else pure ())
      Q := by
  apply Triple.guard ?_ hx
  intro s hs
  by_cases hl : req.dataLength.toNat < length
  · simpa [hl] using hr s hs
  · simpa [hl] using ⟨Nat.not_lt.mp hl, hs⟩

/-- Every branch of a known command ends with a rejection, or after one handler call and what
is made of its result. -/
theorem triple_handleRequest {h : Handlers σ} (g : Indeterminate) (req : Request) {c : Command}
    (hc : Command.ofByte req.requestCommand = some c) {P Q : Handling σ → Prop}
    (htouch : ∀ s start length, P s → P (s.touch start length))
    (hreject : ∀ s, P s → Q s.reject)
    (hplain : ∀ s c, P s → Q ((s.call h c).setData none 0))
    (hdata : ∀ s c data dataLength, P s → data.length = dataLength.toNat →
      Q ((s.call h c).setData (some data) dataLength))
    (herror : ∀ s c, P s → Q ((s.call h c).setStatus .error)) :
    Triple P (handleRequest h g req) (fun _ => Q) := by
  have hread {α : Type} {start length : Nat} {x : StateM (Handling σ) α} {a : α}
      {f : α → StateM (Handling σ) Unit} (hx : ∀ s, x.run s = (a, s.touch start length))
      (hf : Triple P (f a) (fun _ => Q)) : Triple P (x >>= f) (fun _ => Q) :=
    triple_read hx (fun s hs => htouch s start length hs) hf
  have hexact {length : Nat} {x : StateM (Handling σ) Unit} (hx : Triple P x (fun _ => Q)) :
      Triple P (checkExactRequestLength req length >>= fun b => if b = true then x else pure ())
        (fun _ => Q) := triple_exact hreject fun _ => hx
  have hmin {length : Nat} {x : StateM (Handling σ) Unit} (hx : Triple P x (fun _ => Q)) :
      Triple P (checkMinRequestLength req length >>= fun b => if b = true then x else pure ())
        (fun _ => Q) := triple_min hreject fun _ => hx
  unfold handleRequest
  simp only [hc]
  cases c <;> simp only
  case «continue» =>
    exact hexact fun s hs => hdata s _ _ _ hs (by simp)
  case getReturnCode | getCpuPc =>
    exact hexact fun s hs => hdata s _ _ _ hs (by simp [int64ToBytes])
  case getCodeCoverage =>
    exact hexact fun s hs => herror s _ hs
  case setMmioValue =>
    apply hmin
    apply Triple.get
    intro s
    apply hread (run_readSlice _ _ _)
    exact fun s hs => hplain s _ hs
  case disableMmioTracking | enableCodeCoverage | disableCodeCoverage |
      resetCodeCoverage | storeCpuRegisters | restoreCpuRegisters =>
    apply hexact
    exact fun s hs => hplain s _ hs
  case kill =>
    apply hexact
    apply hread (run_readByte _ _)
    exact fun s hs => hplain s _ hs
  case jumpCpuTo =>
    apply hexact
    apply hread (run_readInt64 _ _)
    exact fun s hs => hplain s _ hs
  case setCpuInterruptTrigger =>
    apply hexact
    apply hread (run_readInt64 _ _)
    apply hread (run_readInt64 _ _)
    exact fun s hs => hplain s _ hs
  case getCodeCoverageShm =>
    apply hexact
    apply hread (run_readInt32 _ _)
    apply hread (run_readInt32 _ _)
    exact fun s hs => hplain s _ hs
  case enableMmioTracking =>
    apply hexact
    apply hread (run_readInt64 _ _)
    apply hread (run_readInt64 _ _)
    apply hread (run_readByte _ _)
    exact fun s hs => hplain s _ hs
  case setBreakpoint =>
    apply hmin
    apply hread (run_readByte _ _)
    apply hread (run_readSlice _ _ _)
    exact fun s hs => hplain s _ hs
  case removeBreakpoint | setErrorSymbol =>
    apply hmin
    apply hread (run_readSlice _ _ _)
    exact fun s hs => hplain s _ hs
  case setReturnCodeAddress =>
    apply hmin
    apply hread (run_readInt64 _ _)
    apply hread (run_readSlice _ _ _)
    exact fun s hs => hplain s _ hs
  case setFixedRead =>
    apply hmin
    apply hread (run_readByte _ _)
    apply hexact
    apply hread (run_readSlice _ _ _)
    exact fun s hs => hplain s _ hs
  case addToMmioReadQueue =>
    apply hmin
    apply hread (run_readInt64 _ _)
    apply hread (run_readInt32 _ _)
    apply hread (run_readInt32 _ _)
    apply hexact
    apply hread (run_readSlice _ _ _)
    exact fun s hs => hplain s _ hs
  case doRun =>
    apply hmin
    apply hread (run_readInt64 _ _)
    apply hread (run_readInt32 _ _)
    apply hread (run_readInt32 _ _)
    apply hread (run_readByte _ _)
    apply hread (run_readByte _ _)
    apply hread (run_readByte _ _)
    apply hexact
    apply hread (run_readSlice _ _ _)
    apply hread (run_readSlice _ _ _)
    apply hread (run_readSlice _ _ _)
    apply hread (run_readSlice _ _ _)
    exact fun s hs => hplain s _ hs
  case doRunShm =>
    apply hmin
    apply hread (run_readInt64 _ _)
    apply hread (run_readInt32 _ _)
    apply hread (run_readInt32 _ _)
    apply hread (run_readInt32 _ _)
    apply hread (run_readByte _ _)
    apply hread (run_readByte _ _)
    apply hread (run_readByte _ _)
    apply hread (run_readByte _ _)
    apply hexact
    apply hread (run_readSlice _ _ _)
    apply hread (run_readSlice _ _ _)
    apply hread (run_readSlice _ _ _)
    exact fun s hs => hplain s _ hs

/-- The data of a response are as long as announced. -/
theorem length_data_handleRequest (h : Handlers σ) (g : Indeterminate) (req : Request) (v : σ) :
    (((handleRequest h g req).run { state := v }).2.res.data.getD []).length =
      ((handleRequest h g req).run { state := v }).2.res.dataLength.toNat := by
  cases hc : Command.ofByte req.requestCommand with
  | none => simp [handleRequest, hc]
  | some c =>
    let P (s : Handling σ) : Prop := (s.res.data.getD []).length = s.res.dataLength.toNat
    have ht : Triple P (handleRequest h g req) (fun _ => P) := by
      apply triple_handleRequest g req hc
      · exact fun _ _ _ hs => hs
      · exact fun _ _ => rfl
      · exact fun _ _ _ => rfl
      · exact fun _ _ _ _ _ hl => hl
      · exact fun _ _ hs => hs
    exact ht { state := v } rfl

end VpTesting.HandleRequest

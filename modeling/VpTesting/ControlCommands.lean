import VpTesting.HandleRequest

namespace VpTesting.ControlCommands

open VpTesting.ByteMemory VpTesting.Types VpTesting.TestingCommunication VpTesting.HandlerCalls
  VpTesting.HandleRequest

variable {σ : Type}

/-- A symbol or register name: all bytes up to the end of a payload, at least one. -/
abbrev Name := { bytes : List UInt8 // bytes ≠ [] }

inductive Control
  | kill (gracefully : Bool)
  | setBreakpoint (offset : UInt8) (symbol : Name)
  | removeBreakpoint (symbol : Name)
  | enableMmioTracking (startAddress endAddress : UInt64) (mode : UInt8)
  | setCpuInterruptTrigger (interruptAddress triggerAddress : UInt64)
  | getCodeCoverageShm (shmId : Int32) (offset : UInt32)
  | setReturnCodeAddress (address : UInt64) (regName : Name)
  | setErrorSymbol (symbol : Name)
  | jumpCpuTo (address : UInt64)

namespace Control

def command : Control → Command
  | kill .. => .kill
  | setBreakpoint .. => .setBreakpoint
  | removeBreakpoint .. => .removeBreakpoint
  | enableMmioTracking .. => .enableMmioTracking
  | setCpuInterruptTrigger .. => .setCpuInterruptTrigger
  | getCodeCoverageShm .. => .getCodeCoverageShm
  | setReturnCodeAddress .. => .setReturnCodeAddress
  | setErrorSymbol .. => .setErrorSymbol
  | jumpCpuTo .. => .jumpCpuTo

/-- The documented payload of each command. -/
def layout : Control → List UInt8
  | kill gracefully => [if gracefully then 1 else 0]
  | setBreakpoint offset symbol => [offset] ++ symbol.1
  | removeBreakpoint symbol => symbol.1
  | enableMmioTracking startAddress endAddress mode =>
    be64 startAddress ++ be64 endAddress ++ [mode]
  | setCpuInterruptTrigger interruptAddress triggerAddress =>
    be64 interruptAddress ++ be64 triggerAddress
  | getCodeCoverageShm shmId offset => be32 shmId.toUInt32 ++ be32 offset
  | setReturnCodeAddress address regName => be64 address ++ regName.1
  | setErrorSymbol symbol => symbol.1
  | jumpCpuTo address => be64 address

def call : Control → HandlerCall
  | kill gracefully => .handleKill gracefully
  | setBreakpoint offset symbol => .handleSetBreakpoint symbol.1 offset.toUInt32.toInt32
  | removeBreakpoint symbol => .handleRemoveBreakpoint symbol.1
  | enableMmioTracking startAddress endAddress mode =>
    .handleEnableMmioTracking startAddress endAddress mode
  | setCpuInterruptTrigger interruptAddress triggerAddress =>
    .handleSetCpuInterruptTrigger interruptAddress triggerAddress
  | getCodeCoverageShm shmId offset => .handleGetCodeCoverageShm shmId offset
  | setReturnCodeAddress address regName => .handleSetReturnCodeAddress address regName.1
  | setErrorSymbol symbol => .handleSetErrorSymbol symbol.1
  | jumpCpuTo address => .handleJumpCpuTo address

end Control

/-- A control command whose documented payload fits a request. -/
structure ControlRequest where
  control : Control
  layout_lt : control.layout.length < 2 ^ 32

def ControlRequest.request (r : ControlRequest) : Request :=
  Request.of r.control.command.toByte ⟨r.control.layout, r.layout_lt⟩

theorem callsFor_eq (h : Handlers σ) (g : Indeterminate) (v : σ) (r : ControlRequest)
    (hr : ∀ address regName, r.control ≠ .setReturnCodeAddress address regName) :
    callsFor h g v r.request = [r.control.call] := by
  obtain ⟨control, hlt⟩ := r
  cases control with
  | kill gracefully =>
    cases gracefully <;>
      simp [callsFor, ControlRequest.request, handleRequest, Control.command, Control.layout,
        Control.call, view]
  | setBreakpoint offset symbol =>
    have h0 := view_append [] symbol.1 offset g.beyond
    have h1 := slice_view_append [offset] symbol.1 [] g.beyond
    have hl : ¬symbol.1.length + 1 < 2 := by
      have hpos := List.length_pos_iff.mpr symbol.2
      omega
    simp only [List.nil_append, List.length_nil, List.singleton_append, List.append_nil,
      List.length_singleton] at h0 h1
    simp [callsFor, ControlRequest.request, handleRequest, Control.command, Control.layout,
      Control.call, hl, h0, h1]
  | removeBreakpoint symbol | setErrorSymbol symbol =>
    simp [callsFor, ControlRequest.request, handleRequest, Control.command, Control.layout,
      Control.call, symbol.2]
  | enableMmioTracking startAddress endAddress mode =>
    have h0 := bytesToInt64_be64 [] (be64 endAddress ++ [mode]) startAddress g.beyond
    have h8 := bytesToInt64_be64 (be64 startAddress) [mode] endAddress g.beyond
    have h16 := view_append (be64 startAddress ++ be64 endAddress) [] mode g.beyond
    simp only [List.nil_append, List.length_nil, List.append_assoc, length_be64,
      List.length_append, Nat.reduceAdd] at h0 h8 h16
    simp [callsFor, ControlRequest.request, handleRequest, Control.command, Control.layout,
      Control.call, h0, h8, h16]
  | setCpuInterruptTrigger interruptAddress triggerAddress =>
    have h0 := bytesToInt64_be64 [] (be64 triggerAddress) interruptAddress g.beyond
    have h8 := bytesToInt64_be64 (be64 interruptAddress) [] triggerAddress g.beyond
    simp only [List.nil_append, List.length_nil, List.append_nil, length_be64] at h0 h8
    simp [callsFor, ControlRequest.request, handleRequest, Control.command, Control.layout,
      Control.call, h0, h8]
  | getCodeCoverageShm shmId offset =>
    have h0 := bytesToInt32_be32 [] (be32 offset) shmId.toUInt32 g.beyond
    have h4 := bytesToInt32_be32 (be32 shmId.toUInt32) [] offset g.beyond
    simp only [List.nil_append, List.length_nil, List.append_nil, length_be32] at h0 h4
    simp [callsFor, ControlRequest.request, handleRequest, Control.command, Control.layout,
      Control.call, h0, h4]
  | setReturnCodeAddress address regName => exact absurd rfl (hr address regName)
  | jumpCpuTo address =>
    have h0 := bytesToInt64_be64 [] [] address g.beyond
    simp only [List.nil_append, List.length_nil, List.append_nil] at h0
    simp [callsFor, ControlRequest.request, handleRequest, Control.command, Control.layout,
      Control.call, h0]

/-- The name passed on for SET_RETURN_CODE_ADDRESS starts inside the address, so it
is four bytes longer than the name that was sent. -/
theorem callsFor_setReturnCodeAddress (h : Handlers σ) (g : Indeterminate) (v : σ)
    (r : ControlRequest) (address : UInt64) (regName : Name)
    (hr : r.control = .setReturnCodeAddress address regName) :
    callsFor h g v r.request ≠ [r.control.call] := by
  obtain ⟨control, hlt⟩ := r
  subst hr
  have hl : ¬8 + regName.1.length < 5 := by omega
  intro he
  simp [callsFor, ControlRequest.request, handleRequest, Control.command, Control.layout,
    Control.call, hl] at he
  have hlen := congrArg List.length he.2
  rw [length_slice] at hlen
  omega

/-- The control commands decoded to what was sent are all but SET_RETURN_CODE_ADDRESS. -/
theorem callsFor_control_iff (h : Handlers σ) (g : Indeterminate) (v : σ) (r : ControlRequest) :
    callsFor h g v r.request = [r.control.call] ↔
      ∀ address regName, r.control ≠ .setReturnCodeAddress address regName := by
  refine ⟨fun he address regName hr => ?_, callsFor_eq h g v r⟩
  exact callsFor_setReturnCodeAddress h g v r address regName hr he

/-- The register name `R` arrives behind the low half of the address `0x41`. -/
def returnCodeRequest : ControlRequest :=
  ⟨.setReturnCodeAddress 65 ⟨[82], by decide⟩, by decide⟩

theorem returnCodeRequest_calls :
    callsFor (silent Unit) Indeterminate.zero () returnCodeRequest.request ≠
      [returnCodeRequest.control.call] :=
  callsFor_setReturnCodeAddress (silent Unit) Indeterminate.zero () returnCodeRequest 65
    ⟨[82], by decide⟩ rfl

end VpTesting.ControlCommands

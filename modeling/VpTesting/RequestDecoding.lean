import VpTesting.DataCommands
import VpTesting.DoRun
import VpTesting.HandlerSimulation

namespace VpTesting.RequestDecoding

open VpTesting.BigEndian VpTesting.ByteMemory VpTesting.Types VpTesting.TestingCommunication
  VpTesting.HandlerCalls VpTesting.StateRules VpTesting.HandleRequest VpTesting.HandlerSimulation

open VpTesting.DataCommands (DataCommand)

variable {σ : Type}

/-- The length checks of a command, as they are computed, for a payload of `n` bytes. -/
def Passes (m : Nat → UInt8) (n : Nat) : Command → Prop
  | .«continue» | .disableMmioTracking | .enableCodeCoverage | .disableCodeCoverage
  | .getCodeCoverage | .resetCodeCoverage | .getReturnCode | .getCpuPc | .storeCpuRegisters
  | .restoreCpuRegisters => n = 0
  | .kill => n = 1
  | .setBreakpoint => 2 ≤ n
  | .removeBreakpoint | .setErrorSymbol | .setMmioValue => 1 ≤ n
  | .enableMmioTracking => n = 17
  | .setCpuInterruptTrigger => n = 16
  | .getCodeCoverageShm | .jumpCpuTo => n = 8
  | .setReturnCodeAddress => 5 ≤ n
  | .addToMmioReadQueue => 17 ≤ n ∧ n = DataCommand.addToMmioReadQueue.checkedLength m
  | .setFixedRead => 10 ≤ n ∧ n = DataCommand.setFixedRead.checkedLength m
  | .doRunShm => 25 ≤ n ∧ n = DataCommand.doRunShm.checkedLength m
  | .doRun => 20 ≤ n ∧ n = (UInt32.ofNat (DoRun.dataStart m) + DoRun.dataLength m).toNat

/-- The handler call that a payload of `n` bytes leads to. -/
def decoded (g : Indeterminate) (m : Nat → UInt8) (n : Nat) : Command → HandlerCall
  | .«continue» => .handleContinue { event := g.eventType }
  | .kill => .handleKill (m 0 != 0)
  | .setBreakpoint => .handleSetBreakpoint (slice m 1 (n - 1)) (m 0).toUInt32.toInt32
  | .removeBreakpoint => .handleRemoveBreakpoint (slice m 0 n)
  | .enableMmioTracking =>
    .handleEnableMmioTracking (bytesToInt64 m 0).toUInt64 (bytesToInt64 m 8).toUInt64 (m 16)
  | .disableMmioTracking => .handleDisableMmioTracking
  | .setMmioValue => .handleSetMmioValue 0 []
  | .addToMmioReadQueue => DataCommand.addToMmioReadQueue.call m
  | .setCpuInterruptTrigger =>
    .handleSetCpuInterruptTrigger (bytesToInt64 m 0).toUInt64 (bytesToInt64 m 8).toUInt64
  | .enableCodeCoverage => .handleEnableCodeCoverage
  | .disableCodeCoverage => .handleDisableCodeCoverage
  | .getCodeCoverage => .handleGetCodeCoverage none
  | .getCodeCoverageShm =>
    .handleGetCodeCoverageShm (bytesToInt32 m 0).toUInt32.toInt32 (bytesToInt32 m 4).toUInt32
  | .resetCodeCoverage => .handleResetCodeCoverage
  | .setReturnCodeAddress =>
    .handleSetReturnCodeAddress (bytesToInt64 m 0).toUInt64 (slice m 4 (n - 4))
  | .getReturnCode => .handleGetReturnCode g.exitCode
  | .doRun => DoRun.doRunCall m
  | .doRunShm => DataCommand.doRunShm.call m
  | .setErrorSymbol => .handleSetErrorSymbol (slice m 0 n)
  | .setFixedRead => DataCommand.setFixedRead.call m
  | .getCpuPc => .handleGetCpuPc g.cpuPc
  | .jumpCpuTo => .handleJumpCpuTo (bytesToInt64 m 0).toUInt64
  | .storeCpuRegisters => .handleStoreCpuRegister
  | .restoreCpuRegisters => .handleRestoreCpuRegister

theorem branch_decoded (g : Indeterminate) (m : Nat → UInt8) (n : Nat) (c : Command) :
    branch (decoded g m n c) = c := by
  cases c <;> rfl

section

variable (h : Handlers σ) (g : Indeterminate) (v : σ) (c : Command) (p : Payload)

/-- A payload that passes the checks of its command leads to one handler call. -/
theorem callsFor_of_passes (hp : Passes (view p.bytes g.beyond) p.bytes.length c) :
    callsFor h g v (Request.of c.toByte p) =
      [decoded g (view p.bytes g.beyond) p.bytes.length c] := by
  cases c <;> simp only [Passes] at hp
  case addToMmioReadQueue => exact DataCommands.handled_of_passes h g v p .addToMmioReadQueue hp
  case setFixedRead => exact DataCommands.handled_of_passes h g v p .setFixedRead hp
  case doRunShm => exact DataCommands.handled_of_passes h g v p .doRunShm hp
  case doRun =>
    rw [callsFor, DoRun.run_doRun, if_neg (Nat.not_lt.mpr hp.1), if_neg (not_not.mpr hp.2)]
    rfl
  case setBreakpoint | removeBreakpoint | setErrorSymbol | setMmioValue | setReturnCodeAddress =>
    simp [callsFor, handleRequest, Nat.not_lt.mpr hp, decoded]
  all_goals simp [callsFor, handleRequest, hp, decoded]

theorem callsFor_of_not_passes (hp : ¬Passes (view p.bytes g.beyond) p.bytes.length c) :
    callsFor h g v (Request.of c.toByte p) = [] := by
  cases c <;> simp only [Passes] at hp
  case addToMmioReadQueue =>
    exact (DataCommands.handled_of_not_passes h g v p .addToMmioReadQueue hp).1
  case setFixedRead => exact (DataCommands.handled_of_not_passes h g v p .setFixedRead hp).1
  case doRunShm => exact (DataCommands.handled_of_not_passes h g v p .doRunShm hp).1
  case doRun =>
    rw [callsFor, DoRun.run_doRun]
    split_ifs with hl he
    · rfl
    · rfl
    · exact absurd ⟨Nat.not_lt.mp hl, not_not.mp he⟩ hp
  case setBreakpoint | removeBreakpoint | setErrorSymbol | setMmioValue | setReturnCodeAddress =>
    simp [callsFor, handleRequest, Nat.not_le.mp hp]
  all_goals simp [callsFor, handleRequest, hp]

end

/-- A byte of which a handler is told only whether it is zero. -/
def flag (b : UInt8) : UInt8 := if b = 0 then 0 else 1

/-- What of a payload its handler is told. Of SET_MMIO_VALUE it is told nothing. -/
def told : Command → List UInt8 → List UInt8
  | .kill, bytes => bytes.modify 0 flag
  | .doRunShm, bytes => bytes.modify 20 flag
  | .setMmioValue, bytes => (bytes.take 1).map fun _ => 0
  | _, bytes => bytes

/-- A payload for a call. The data of DO_RUN may be longer than the payload, as the check of
its length is a 32-bit sum. -/
def payloadOf : HandlerCall → List UInt8
  | .handleContinue _ | .handleDisableMmioTracking | .handleEnableCodeCoverage
  | .handleResetCodeCoverage | .handleDisableCodeCoverage | .handleGetCodeCoverage _
  | .handleGetReturnCode _ | .handleGetCpuPc _ | .handleStoreCpuRegister
  | .handleRestoreCpuRegister => []
  | .handleKill gracefully => [if gracefully then 1 else 0]
  | .handleSetBreakpoint symbol offset => offset.toUInt32.toUInt8 :: symbol
  | .handleRemoveBreakpoint symName => symName
  | .handleEnableMmioTracking startAddress endAddress mode =>
    be64 startAddress ++ be64 endAddress ++ [mode]
  | .handleSetMmioValue .. => [0]
  | .handleAddToMmioReadQueue address length dataLength data =>
    be64 address ++ toBytes 4 length ++ toBytes 4 dataLength ++ data
  | .handleSetCpuInterruptTrigger interruptAddress triggerAddress =>
    be64 interruptAddress ++ be64 triggerAddress
  | .handleGetCodeCoverageShm shmId offset => be32 shmId.toUInt32 ++ be32 offset
  | .handleSetReturnCodeAddress address regName => (be64 address).take 4 ++ regName
  | .handleDoRun startBreakpoint endBreakpoint address length dataLength data registerName =>
    (be64 address ++ toBytes 4 length ++ toBytes 4 dataLength ++
      [UInt8.ofNat startBreakpoint.length, UInt8.ofNat endBreakpoint.length,
        UInt8.ofNat registerName.length] ++
      startBreakpoint ++ endBreakpoint ++ registerName ++ data).take
        ((19 + startBreakpoint.length + endBreakpoint.length + registerName.length + dataLength) %
          2 ^ 32)
  | .handleDoRunShm startBreakpoint endBreakpoint address length shmId offset stop registerName =>
    be64 address ++ toBytes 4 length ++ be32 shmId.toUInt32 ++ be32 offset ++
      [if stop then 1 else 0] ++ toBytes 1 startBreakpoint.length ++
      toBytes 1 endBreakpoint.length ++ toBytes 1 registerName.length ++ startBreakpoint ++
      endBreakpoint ++ registerName
  | .handleSetErrorSymbol symbol => symbol
  | .handleSetFixedRead count data => toBytes 1 count ++ data
  | .handleJumpCpuTo address => be64 address

section

variable (g : Indeterminate) {m : Nat → UInt8} {n : Nat}

theorem flag_eq (b : UInt8) : flag b = if b != 0 then 1 else 0 := by
  by_cases hb : b = 0
  · rw [hb]
    rfl
  · rw [flag, if_neg hb, if_pos (bne_iff_ne.mpr hb)]

theorem flag_ne_zero (b : UInt8) : (flag b != 0) = (b != 0) := by
  rw [flag_eq]
  cases b != 0 with
  | true => rfl
  | false => rfl

theorem modify_append_cons {α : Type} (f : α → α) (xs ys : List α) (x : α) :
    (xs ++ x :: ys).modify xs.length f = xs ++ f x :: ys := by
  induction xs with
  | nil => rfl
  | cons y xs ih => exact congrArg (y :: ·) ih

theorem payloadOf_doRun (hn : n < 2 ^ 32) (hp : Passes m n .doRun) :
    payloadOf (decoded g m n .doRun) = slice m 0 n := by
  obtain ⟨hlength, hlayout⟩ :=
    DoRun.encodes_of_sum m (DoRun.dataStart m + (DoRun.dataLength m).toNat) rfl
  simp only [length_slice] at hlength
  have hle : n ≤ DoRun.dataStart m + (DoRun.dataLength m).toNat ∧
      (DoRun.dataStart m + (DoRun.dataLength m).toNat) % 2 ^ 32 = n := by
    obtain hsum | hsum := DoRun.sum_check hp.2 (DoRun.dataStart_lt m)
    · omega
    · omega
  rw [decoded, DoRun.doRunCall, payloadOf, ← hlayout]
  simp only [length_slice]
  rw [hlength, hle.2, take_slice m 0 hle.1]

theorem payloadOf_doRunShm (hp : Passes m n .doRunShm) :
    payloadOf (decoded g m n .doRunShm) = told .doRunShm (slice m 0 n) := by
  obtain ⟨option, hoption, hlayout⟩ := DataCommands.encodes_doRunShm m
  have he : n = 24 + (m 21).toNat + (m 22).toNat + (m 23).toNat := hp.2
  rw [← he] at hlayout
  have hflag : flag option = if m 20 != 0 then 1 else 0 := by rw [flag_eq, hoption]
  let header := be64 (bytesToInt64 m 0).toUInt64 ++ toBytes 4 (bytesToInt32 m 8).toUInt32.toNat ++
    be32 (bytesToInt32 m 12).toUInt32.toInt32.toUInt32 ++ be32 (bytesToInt32 m 16).toUInt32
  have hheader : header.length = 20 := by simp [header]
  have hmodify (ys : List UInt8) : (header ++ option :: ys).modify 20 flag =
      header ++ flag option :: ys := by
    rw [← hheader, modify_append_cons]
  rw [hlayout, told]
  simp only [header, List.append_assoc, List.cons_append, List.nil_append] at hmodify ⊢
  rw [hmodify, hflag, decoded, DataCommand.call, payloadOf]
  simp only [List.append_assoc, List.cons_append, List.nil_append]

/-- The payload of a call that was made is what the handler was told of the payload sent. -/
theorem payloadOf_decoded (hn : n < 2 ^ 32) {c : Command} (hp : Passes m n c) :
    payloadOf (decoded g m n c) = told c (slice m 0 n) := by
  cases c <;> simp only [Passes] at hp
  case doRun => exact payloadOf_doRun g hn hp
  case doRunShm => exact payloadOf_doRunShm g hp
  case addToMmioReadQueue =>
    have he := (DataCommands.eq_checkedLength_iff .addToMmioReadQueue hn hp.1).mp hp.2
    rw [he]
    exact (DataCommands.encodes_addToMmioReadQueue m).symm
  case setFixedRead =>
    have he : n = 1 + (m 0).toNat * 9 := hp.2
    rw [he]
    exact (DataCommands.encodes_setFixedRead m).symm
  case kill =>
    subst hp
    rw [decoded, payloadOf, ← flag_eq]
    rfl
  case setMmioValue =>
    have htake : (slice m 0 n).take 1 = slice m 0 1 := take_slice m 0 hp
    rw [told, htake]
    rfl
  case setBreakpoint =>
    have hsplit : told .setBreakpoint (slice m 0 n) = slice m 0 (1 + (n - 1)) :=
      congrArg (slice m 0) (Nat.add_sub_of_le (Nat.le_of_succ_le hp)).symm
    rw [hsplit, slice_add, decoded, payloadOf, UInt32.toUInt32_toInt32, UInt8.toUInt8_toUInt32]
    rfl
  case removeBreakpoint | setErrorSymbol => rfl
  case enableMmioTracking =>
    subst hp
    rw [decoded, payloadOf, ← DataCommands.slice_int64, ← DataCommands.slice_int64]
    rfl
  case setCpuInterruptTrigger =>
    subst hp
    rw [decoded, payloadOf, ← DataCommands.slice_int64, ← DataCommands.slice_int64]
    rfl
  case getCodeCoverageShm =>
    subst hp
    rw [decoded, payloadOf, UInt32.toUInt32_toInt32, ← DataCommands.slice_int32,
      ← DataCommands.slice_int32]
    rfl
  case jumpCpuTo =>
    subst hp
    rw [decoded, payloadOf, ← DataCommands.slice_int64]
    rfl
  case setReturnCodeAddress =>
    have hsplit : told .setReturnCodeAddress (slice m 0 n) = slice m 0 (4 + (n - 4)) :=
      congrArg (slice m 0) (Nat.add_sub_of_le (Nat.le_of_succ_le hp)).symm
    have h4 : (slice m 0 8).take 4 = slice m 0 4 := take_slice m 0 (by decide)
    rw [hsplit, slice_add, decoded, payloadOf, ← DataCommands.slice_int64, h4]
  all_goals
    subst hp
    rfl

end

section

variable {m m' : Nat → UInt8} {bytes bytes' : List UInt8} {i : Nat}

/-- Payloads that differ in a flag alone. -/
theorem view_of_flag (ht : bytes.modify i flag = bytes'.modify i flag) (beyond : Nat → UInt8) :
    bytes.length = bytes'.length ∧
      (∀ j, j ≠ i → view bytes beyond j = view bytes' beyond j) ∧
      (i < bytes.length → (view bytes beyond i != 0) = (view bytes' beyond i != 0)) := by
  have hlen : bytes.length = bytes'.length := by
    have hl := congrArg List.length ht
    rwa [List.length_modify, List.length_modify] at hl
  refine ⟨hlen, fun j hj => ?_, fun hi => ?_⟩
  · have hget := congrArg (·[j]?) ht
    simp only [List.getElem?_modify, if_neg (Ne.symm hj), id_map'] at hget
    rw [view, view, hget]
  · have hi' : i < bytes'.length := hlen ▸ hi
    have hget := congrArg (·[i]?) ht
    simp only [List.getElem?_modify, if_true, List.getElem?_eq_getElem hi,
      List.getElem?_eq_getElem hi', Option.map_eq_map, Option.map_some, Option.some.injEq] at hget
    rw [view, view, List.getElem?_eq_getElem hi, List.getElem?_eq_getElem hi', Option.getD_some,
      Option.getD_some, ← flag_ne_zero, hget, flag_ne_zero]

theorem slice_congr {start length : Nat} (hm : ∀ j, start ≤ j → m j = m' j) :
    slice m start length = slice m' start length :=
  List.map_congr_left fun j _ => hm (start + j) (Nat.le_add_right start j)

theorem doRunShm_congr (hm : ∀ j, j ≠ 20 → m j = m' j) (h20 : (m 20 != 0) = (m' 20 != 0)) :
    DataCommand.doRunShm.checkedLength m =
        DataCommand.doRunShm.checkedLength m' ∧
      DataCommand.doRunShm.call m = DataCommand.doRunShm.call m' := by
  have hslice {start length : Nat} (hs : 20 < start) :
      slice m start length = slice m' start length :=
    slice_congr fun j hj => hm j (by omega)
  have h0 : bytesToInt64 m 0 = bytesToInt64 m' 0 := by simp [bytesToInt64, hm]
  have h8 : bytesToInt32 m 8 = bytesToInt32 m' 8 := by simp [bytesToInt32, hm]
  have h12 : bytesToInt32 m 12 = bytesToInt32 m' 12 := by simp [bytesToInt32, hm]
  have h16 : bytesToInt32 m 16 = bytesToInt32 m' 16 := by simp [bytesToInt32, hm]
  have h21 := hm 21 (by decide)
  have h22 := hm 22 (by decide)
  have h23 := hm 23 (by decide)
  constructor
  · rw [DataCommand.checkedLength, h21, h22, h23]
    rfl
  · rw [DataCommand.call, h0, h8, h12, h16, h20, h21, h22, h23,
      hslice (by decide), hslice (by omega), hslice (by omega)]
    rfl

/-- What a handler is told is all that the checks and the call depend on. -/
theorem decoded_of_told (g : Indeterminate) {c : Command} (ht : told c bytes = told c bytes')
    (hp : Passes (view bytes g.beyond) bytes.length c) :
    Passes (view bytes' g.beyond) bytes'.length c ∧
      decoded g (view bytes g.beyond) bytes.length c =
        decoded g (view bytes' g.beyond) bytes'.length c := by
  by_cases hsame : bytes = bytes'
  · rw [← hsame]
    exact ⟨hp, rfl⟩
  cases c
  case kill =>
    obtain ⟨hlen, -, hflag⟩ := view_of_flag ht g.beyond
    have h1 : bytes.length = 1 := hp
    refine ⟨hlen.symm.trans h1, ?_⟩
    rw [decoded, hflag (by omega)]
    rfl
  case doRunShm =>
    obtain ⟨hlen, hview, hflag⟩ := view_of_flag ht g.beyond
    obtain ⟨hl, he⟩ := hp
    obtain ⟨hchecked, hcall⟩ := doRunShm_congr hview (hflag (by omega))
    rw [hchecked] at he
    exact ⟨⟨hlen ▸ hl, hlen ▸ he⟩, hcall⟩
  case setMmioValue =>
    have hlen := congrArg List.length ht
    simp only [told, List.length_map, List.length_take] at hlen
    have hl : 1 ≤ bytes.length := hp
    have hl' : 1 ≤ bytes'.length := by omega
    exact ⟨hl', rfl⟩
  all_goals exact absurd ht hsame

end

/-- Two requests lead to the same handler calls if and only if both are refused, or they have
the same command and tell its handler the same. -/
theorem same_calls_iff {τ : Type} (h : Handlers σ) (h' : Handlers τ) (g : Indeterminate) (v : σ)
    (v' : τ) (c c' : Command) (p p' : Payload) :
    callsFor h g v (Request.of c.toByte p) = callsFor h' g v' (Request.of c'.toByte p') ↔
      (callsFor h g v (Request.of c.toByte p) = [] ∧
        callsFor h' g v' (Request.of c'.toByte p') = []) ∨
      (c = c' ∧ told c p.bytes = told c' p'.bytes) := by
  by_cases hp : Passes (view p.bytes g.beyond) p.bytes.length c
  · have hcalls := callsFor_of_passes h g v c p hp
    constructor
    · intro he
      by_cases hp' : Passes (view p'.bytes g.beyond) p'.bytes.length c'
      · rw [hcalls, callsFor_of_passes h' g v' c' p' hp'] at he
        have hd := List.singleton_inj.mp he
        have hc := congrArg branch hd
        rw [branch_decoded, branch_decoded] at hc
        have ht := congrArg payloadOf hd
        rw [payloadOf_decoded g p.bytes_lt hp, payloadOf_decoded g p'.bytes_lt hp',
          slice_view_all, slice_view_all] at ht
        exact Or.inr ⟨hc, ht⟩
      · rw [hcalls, callsFor_of_not_passes h' g v' c' p' hp'] at he
        cases he
    · rintro (⟨hnil, -⟩ | ⟨rfl, ht⟩)
      · rw [hcalls] at hnil
        cases hnil
      · obtain ⟨hp', hd⟩ := decoded_of_told g ht hp
        rw [hcalls, callsFor_of_passes h' g v' c p' hp', hd]
  · have hcalls := callsFor_of_not_passes h g v c p hp
    rw [hcalls]
    constructor
    · intro he
      exact Or.inl ⟨rfl, he.symm⟩
    · rintro (⟨-, hnil⟩ | ⟨rfl, ht⟩)
      · exact hnil.symm
      · have hp' : ¬Passes (view p'.bytes g.beyond) p'.bytes.length c := fun hp' =>
          hp (decoded_of_told g ht.symm hp').1
        exact (callsFor_of_not_passes h' g v' c p' hp').symm

end VpTesting.RequestDecoding

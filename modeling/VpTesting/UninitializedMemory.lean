import VpTesting.HandlerOutput

namespace VpTesting.UninitializedMemory

open VpTesting.Types VpTesting.TestingCommunication VpTesting.HandlerCalls
  VpTesting.HandleRequest VpTesting.HandlerOutput

variable {σ : Type}

/-- The local variables of `handle_request` that are passed to a handler uninitialized. -/
inductive Local
  | lastEvent
  | exitCode
  | cpuPc

namespace Local

def command : Local → Command
  | lastEvent => .«continue»
  | exitCode => .getReturnCode
  | cpuPc => .getCpuPc

abbrev Value : Local → Type
  | lastEvent => Event
  | exitCode | cpuPc => UInt64

/-- The variable before the call. Of an event only the type is not initialized. -/
def initial (g : Indeterminate) : (x : Local) → x.Value
  | lastEvent => { event := g.eventType }
  | exitCode => g.exitCode
  | cpuPc => g.cpuPc

/-- What a handler returns, and what it leaves in the variable and in the receiver object. -/
def returned (h : Handlers σ) (v : σ) (g : Indeterminate) : (x : Local) → Status × x.Value × σ
  | lastEvent =>
    let r := h (.handleContinue { event := g.eventType }) v
    (r.status, r.out, r.state)
  | exitCode =>
    let r := h (.handleGetReturnCode g.exitCode) v
    (r.status, r.out, r.state)
  | cpuPc =>
    let r := h (.handleGetCpuPc g.cpuPc) v
    (r.status, r.out, r.state)

/-- The bytes that are sent for a value. -/
def bytes : (x : Local) → x.Value → List UInt8
  | lastEvent, e => continueData e
  | exitCode, value | cpuPc, value => be64 value

def length : (x : Local) → x.Value → UInt32
  | lastEvent, e => e.additionalDataLength + 1
  | exitCode, _ | cpuPc, _ => 8

end Local

/-- A handler does not read the variable it is to write. It leaves a value there that does not
depend on what was there before, or it fails and leaves the variable as it was. -/
def Blind (h : Handlers σ) (v : σ) (x : Local) : Prop :=
  ∃ status state,
    (∃ value, ∀ g, x.returned h v g = (status, value, state)) ∨
      (status ≠ .ok ∧ ∀ g, x.returned h v g = (status, x.initial g, state))

def respond (h : Handlers σ) (g : Indeterminate) (v : σ) (req : Request) : Response :=
  ((handleRequest h g req).run { state := v }).2.res

/-- Two runs that differ in the contents of the local variables only lead to one response. -/
def Independent (h : Handlers σ) (v : σ) (req : Request) : Prop :=
  ∀ g g' : Indeterminate, g.beyond = g'.beyond → respond h g v req = respond h g' v req

def Unwritten (h : Handlers σ) (v : σ) (x : Local) : Prop :=
  ∀ g, (x.returned h v g).2.1 = x.initial g

section

variable {h : Handlers σ} {v : σ} {req : Request} {x : Local}

theorem respond_local (g : Indeterminate) (hc : Command.ofByte req.requestCommand = some x.command)
    (hl : req.dataLength = 0) :
    respond h g v req =
      { responseStatus := (x.returned h v g).1.toByte
        data := some (x.bytes (x.returned h v g).2.1)
        dataLength := x.length (x.returned h v g).2.1 } := by
  cases x with
  | lastEvent => simp [respond, handleRequest, hc, hl, Local.command, Local.returned, Local.bytes,
      Local.length, continueData]
  | exitCode | cpuPc =>
    simp [respond, handleRequest, hc, hl, Local.command, Local.returned, Local.bytes,
      Local.length]
    exact store_value _

/-- With data, the request is rejected before the variable is there. -/
theorem respond_rejected (g : Indeterminate)
    (hc : Command.ofByte req.requestCommand = some x.command) (hl : req.dataLength ≠ 0) :
    respond h g v req = respondMalformed {} := by
  have hn : req.dataLength.toNat ≠ 0 := fun h0 => hl (UInt32.toNat.inj h0)
  cases x with
  | lastEvent | exitCode | cpuPc => simp [respond, handleRequest, hc, hn, Local.command]

/-- No other branch has a variable without an initializer. -/
theorem respond_other {g g' : Indeterminate} (hg : g.beyond = g'.beyond)
    (hc : ∀ x : Local, Command.ofByte req.requestCommand ≠ some x.command) :
    respond h g v req = respond h g' v req := by
  unfold respond handleRequest
  cases hb : Command.ofByte req.requestCommand with
  | none => rfl
  | some c =>
    cases c
    case «continue» => exact absurd hb (hc .lastEvent)
    case getReturnCode => exact absurd hb (hc .exitCode)
    case getCpuPc => exact absurd hb (hc .cpuPc)
    all_goals simp only [hg]

/-- A variable that was written is the same in both runs. -/
theorem independent_of_written {status : Status} {value : x.Value} {state : σ}
    (hc : Command.ofByte req.requestCommand = some x.command)
    (hw : ∀ g, x.returned h v g = (status, value, state)) : Independent h v req := by
  intro g g' _
  by_cases hl : req.dataLength = 0
  · rw [respond_local g hc hl, respond_local g' hc hl, hw, hw]
  · rw [respond_rejected g hc hl, respond_rejected g' hc hl]

theorem be64_zero_ne_one : be64 0 ≠ be64 1 := by decide

/-- What a variable holds that was not written shows in the response. -/
theorem not_independent_of_unwritten (hc : Command.ofByte req.requestCommand = some x.command)
    (hl : req.dataLength = 0) (hu : Unwritten h v x) : ¬Independent h v req := by
  intro hi
  have he := hi ⟨fun _ => 0, 0, 0, 0⟩ ⟨fun _ => 0, 1, 1, 1⟩ rfl
  rw [respond_local _ hc hl, respond_local _ hc hl, hu, hu] at he
  have hd := Option.some.inj (congrArg Response.data he)
  cases x with
  | lastEvent => exact absurd hd (by decide)
  | exitCode | cpuPc => exact absurd hd be64_zero_ne_one

/-- The response depends on uninitialized memory exactly when a request reaches a handler that
leaves its variable unwritten. -/
theorem independent_iff (h : Handlers σ) (v : σ) (req : Request) (hb : ∀ x, Blind h v x) :
    Independent h v req ↔ ¬∃ x : Local, Command.ofByte req.requestCommand = some x.command ∧
      req.dataLength = 0 ∧ Unwritten h v x := by
  constructor
  · rintro hi ⟨x, hc, hl, hu⟩
    exact not_independent_of_unwritten hc hl hu hi
  · intro hn
    by_cases hc : ∃ x : Local, Command.ofByte req.requestCommand = some x.command
    · obtain ⟨x, hc⟩ := hc
      obtain ⟨status, state, ⟨value, hw⟩ | ⟨-, hu⟩⟩ := hb x
      · exact independent_of_written hc hw
      · intro g g' _
        have hl : req.dataLength ≠ 0 := fun hl =>
          hn ⟨x, hc, hl, fun g => congrArg (fun r => r.2.1) (hu g)⟩
        rw [respond_rejected g hc hl, respond_rejected g' hc hl]
    · intro g g' hg
      exact respond_other hg fun x hx => hc ⟨x, hx⟩

end

/-- Handlers that fail and write nothing. -/
def failing : Handlers Unit := fun c v => ⟨.error, c.unwritten, v⟩

theorem failing_blind (x : Local) : Blind failing () x := by
  refine ⟨.error, (), Or.inr ⟨by decide, fun g => ?_⟩⟩
  cases x with
  | lastEvent | exitCode | cpuPc => rfl

/-- Handlers that fail and write nothing, but for a return code of 42. -/
def returning : Handlers Unit
  | .handleGetReturnCode _, v => ⟨.ok, (42 : UInt64), v⟩
  | c, v => failing c v

theorem returning_blind (x : Local) : Blind returning () x := by
  cases x with
  | lastEvent | cpuPc => exact ⟨.error, (), Or.inr ⟨by decide, fun _ => rfl⟩⟩
  | exitCode => exact ⟨.ok, (), Or.inl ⟨42, fun _ => rfl⟩⟩

/-- GET_RETURN_CODE is answered with the return code, whatever its variable held before. -/
theorem independent_returning :
    Independent returning () { requestCommand := Command.toByte .getReturnCode } := by
  refine (independent_iff returning () _ returning_blind).mpr ?_
  rintro ⟨x, hc, -, hu⟩
  cases x with
  | lastEvent | cpuPc => exact absurd hc (by decide)
  | exitCode => exact absurd (hu Indeterminate.zero) (by decide)

/-- GET_RETURN_CODE when no return code was saved. -/
theorem getReturnCode_not_independent :
    (∀ x, Blind failing () x) ∧
      ¬Independent failing () { requestCommand := Command.toByte .getReturnCode } :=
  ⟨failing_blind, not_independent_of_unwritten (x := .exitCode) (by decide) rfl fun _ => rfl⟩

end VpTesting.UninitializedMemory

import Mathlib.Data.Stream.Init
import VpTesting.HandleRequest
import VpTesting.ResponseObject

namespace VpTesting.TestPrograms

open VpTesting.Types VpTesting.HandlerCalls VpTesting.HandleRequest

open VpTesting.ResponseObject (Failed)

variable {α σ : Type}

/-- A receiver object, whatever its communication. The memory is what the requests to come find
in variables that are not initialized. -/
structure TestedReceiver (σ : Type) where
  state : σ
  mCurrentReq : Request := {}
  memory : Stream' Indeterminate

namespace TestedReceiver

variable (h : Handlers σ) (R : TestedReceiver σ)

def asked (req : Request) : TestedReceiver σ := { R with mCurrentReq := req }

def handled : Handling σ :=
  ((handleRequest h R.memory.head R.mCurrentReq).run { state := R.state }).2

/-- The receiver once the current request was handled. -/
def served : TestedReceiver σ := ⟨(R.handled h).state, R.mCurrentReq, R.memory.tail⟩

theorem length_data_handled : ((R.handled h).res.data.getD []).length < 2 ^ 32 := by
  rw [handled, length_data_handleRequest]
  exact UInt32.toNat_lt _

def payload : Payload := ⟨(R.handled h).res.data.getD [], R.length_data_handled h⟩

theorem dataLength_handled : (R.handled h).res.dataLength = (R.payload h).length := by
  rw [← UInt32.toNat_inj, Payload.toNat_length]
  exact (length_data_handleRequest h _ _ _).symm

end TestedReceiver

/-- A program that uses a client: it has a result, or it sends a request, with what the response
object holds before, and goes on by what `send_request` returns. -/
inductive TestProgram (α : Type)
  | finished (value : α)
  | request (command : UInt8) (payload : Payload) (res : Response)
      (next : Bool × Response → TestProgram α)

instance : DecidablePred Failed := fun status =>
  inferInstanceAs (Decidable (status = Status.error.toByte ∨ status = Status.malformed.toByte))

/-- What `send_request` returns to the caller for a response, whatever carries it. -/
def returned (prior res : Response) : Bool × Response :=
  if Failed res.responseStatus then
    (false, { prior with data := none, responseStatus := res.responseStatus })
  else (true, { res with data := if res.dataLength = 0 then none else res.data })

/-- The program with the receiver in its own process: every request is a call of
`handle_request`. -/
def TestProgram.directly (h : Handlers σ) (R : TestedReceiver σ) :
    TestProgram α → α × TestedReceiver σ
  | finished value => (value, R)
  | request command payload res next =>
    let R := R.asked (Request.of command payload)
    (next (returned res (R.handled h).res)).directly h (R.served h)

variable {prior res : Response} {p : Payload}

theorem returned_of_failed (hf : Failed res.responseStatus) :
    returned prior res =
      (false, { prior with data := none, responseStatus := res.responseStatus }) := if_pos hf

theorem returned_of_not_failed (hf : ¬Failed res.responseStatus)
    (hd : res.data.getD [] = p.bytes) (hl : res.dataLength = p.length) :
    returned prior res = (true, ⟨res.responseStatus, p.pointer, p.length⟩) := by
  have hz : res.dataLength = 0 ↔ p.bytes = [] := by
    rw [hl, ← UInt32.toNat_inj, Payload.toNat_length]
    exact List.length_eq_zero_iff
  rw [returned, if_neg hf]
  by_cases hb : p.bytes = []
  · rw [if_pos (hz.mpr hb), Payload.pointer_eq_none hb, hl]
  · have hdata : res.data = some p.bytes := by
      cases hr : res.data with
      | none =>
        rw [hr] at hd
        exact absurd hd.symm hb
      | some data =>
        rw [hr] at hd
        exact congrArg some hd
    rw [if_neg (fun h => hb (hz.mp h)), Payload.pointer_eq_some hb, hl, hdata]

/-- SET_BREAKPOINT for a symbol of one letter, and then a look at the program counter. -/
def lookAround : TestProgram (Bool × Response) :=
  .request Command.setBreakpoint.toByte ⟨[0, 66], by decide⟩ {} fun _ =>
    .request Command.getCpuPc.toByte .empty {} fun r => .finished r

/-- A receiver without a platform. -/
def idleReceiver : TestedReceiver Unit := { state := (), memory := Stream'.const .zero }

end VpTesting.TestPrograms

import Mathlib.Logic.Basic
import VpTesting.DeliveredRequests

namespace VpTesting.StatusCause

open VpTesting.Types VpTesting.HandlerCalls VpTesting.StateRules VpTesting.HandleRequest
  VpTesting.DeliveredRequests

variable {σ : Type} {h : Handlers σ} {v : σ}

/-- No handler was called yet, so the receiver object is as it was. -/
def Uncalled (v : σ) (s : Handling σ) : Prop := s.state = v ∧ s.calls = []

/-- One handler was called, once, and STATUS_OK is its own status. -/
def Invoked (h : Handlers σ) (v : σ) (s : Handling σ) : Prop :=
  ∃ c, s.calls = [c] ∧ (s.res.responseStatus = Status.ok.toByte → (h c v).status = .ok)

def Rejected (s : Handling σ) : Prop :=
  s.calls = [] ∧
    s.res = { responseStatus := Status.malformed.toByte, data := none, dataLength := 0 }

def Caused (h : Handlers σ) (v : σ) (s : Handling σ) : Prop :=
  Xor (Invoked h v s) (Rejected s)

/-- There is a response, and it has one of the two causes. -/
def Accounted (h : Handlers σ) (g : Indeterminate) (v : σ) (req : Request) : Prop :=
  ¬Crashes h g v req ∧ Caused h v ((handleRequest h g req).run { state := v }).2

theorem Invoked.caused {s : Handling σ} (hs : Invoked h v s) : Caused h v s := by
  refine .inl ⟨hs, fun hr => ?_⟩
  obtain ⟨c, hc, -⟩ := hs
  rw [hr.1] at hc
  exact List.cons_ne_nil c [] hc.symm

theorem Uncalled.reject_caused {s : Handling σ} (hs : Uncalled v s) :
    Caused h v s.reject := by
  refine .inr ⟨⟨hs.2, rfl⟩, fun hi => ?_⟩
  obtain ⟨c, hc, -⟩ := hi
  rw [Handling.reject_calls, hs.2] at hc
  exact List.cons_ne_nil c [] hc.symm

theorem Uncalled.call_invoked {s : Handling σ} (hs : Uncalled v s) (c : HandlerCall) :
    Invoked h v (s.call h c) := by
  obtain ⟨hstate, hcalls⟩ := hs
  refine ⟨c, by simp [hcalls], fun hok => ?_⟩
  rw [Handling.call_res, hstate] at hok
  exact Status.toByte_injective hok

theorem Invoked.setStatus_error {s : Handling σ} (hs : Invoked h v s) :
    Invoked h v (s.setStatus .error) := by
  obtain ⟨c, hc, -⟩ := hs
  refine ⟨c, hc, fun hok => ?_⟩
  have he : Status.error = .ok := Status.toByte_injective hok
  cases he

/-- Every branch but the last ends with a rejection or after one handler call. -/
theorem caused_of_command (g : Indeterminate) (req : Request) {c : Command}
    (hc : Command.ofByte req.requestCommand = some c) :
    Triple (Uncalled v) (handleRequest h g req) (fun _ => Caused h v) := by
  apply triple_handleRequest g req hc
  · exact fun _ _ _ hs => hs
  · exact fun _ hs => hs.reject_caused
  · exact fun _ c hs => Invoked.caused (hs.call_invoked c)
  · exact fun _ c _ _ hs _ => Invoked.caused (hs.call_invoked c)
  · exact fun _ c hs => (hs.call_invoked c).setStatus_error.caused

/-- The default branch calls no handler and leaves the status at STATUS_OK. -/
theorem not_caused_of_none (g : Indeterminate) (req : Request)
    (hc : Command.ofByte req.requestCommand = none) :
    ¬Caused h v ((handleRequest h g req).run { state := v }).2 := by
  simp only [handleRequest, hc, run_pure]
  intro ha
  obtain ⟨hi, -⟩ | ⟨hr, -⟩ := ha
  · obtain ⟨c, hc, -⟩ := hi
    exact List.cons_ne_nil c [] hc.symm
  · have he : Status.ok = .malformed :=
      Status.toByte_injective (congrArg Response.responseStatus hr.2)
    cases he

theorem caused_iff (g : Indeterminate) (req : Request) :
    Caused h v ((handleRequest h g req).run { state := v }).2 ↔
      (Command.ofByte req.requestCommand).isSome := by
  cases hc : Command.ofByte req.requestCommand with
  | none => simpa using not_caused_of_none g req hc
  | some c => simpa using caused_of_command g req hc { state := v } ⟨rfl, rfl⟩

/-- A request from the loop is answered, with a handler call or a rejection as the cause, exactly
if its command byte names a command and it does not end the process. -/
theorem accounted_iff (h : Handlers σ) (g : Indeterminate) (v : σ) (d : Delivery) :
    Accounted h g v d.request ↔ (Command.ofByte d.command).isSome ∧ ¬d.Fatal h g v := by
  have hcommand : d.request.requestCommand = d.command := by
    cases d with
    | whole | single => rfl
  rw [Accounted, crashes_iff, caused_iff, hcommand]
  exact and_comm

theorem unknownCommand_not_accounted :
    ¬Accounted (silent Unit) Indeterminate.zero () (Delivery.whole 24 .empty).request := fun ha =>
  not_caused_of_none Indeterminate.zero (Delivery.whole 24 .empty).request (by decide) ha.2

end VpTesting.StatusCause

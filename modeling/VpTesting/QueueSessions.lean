import VpTesting.Completion
import VpTesting.MqAnswers
import VpTesting.TestPrograms

namespace VpTesting.QueueSessions

open VpTesting.ByteMemory VpTesting.MessageQueue VpTesting.Types VpTesting.Processes
  VpTesting.HandlerCalls VpTesting.Completion VpTesting.MqTestingCommunication
  VpTesting.MqTestingClient VpTesting.MqProcesses VpTesting.MqAnswers VpTesting.TestPrograms

open VpTesting.ResponseObject (Failed)

variable {α σ : Type}

/-- What a part of a test program ends with: one half of `send_request`, or the whole. -/
inductive TesterReturn (α : Type)
  | submitted (sent : Bool) (res : Response) (next : Bool × Response → TestProgram α)
  | awaited (r : Option Sent) (res : Response) (next : Bool × Response → TestProgram α)
  | finished (value : α)

abbrev Tester (α : Type) := Process Queue UInt8 Unit (TesterReturn α)

def awaiting (c : MqClient) (res : Response) (next : Bool × Response → TestProgram α) :
    MqProgram (TesterReturn α) :=
  (c.awaitResponse res).bind fun r => .done (.awaited r res next)

/-- A test program up to the first request sent, with some contents of the send buffer. -/
def overQueues (c : MqClient) (memory : Nat → UInt8) : TestProgram α → MqProgram (TesterReturn α)
  | .finished value => .done (.finished value)
  | .request command payload res next =>
    (c.submitRequest (Request.of command payload) memory).bind fun sent =>
      .done (.submitted sent res next)

inductive TesterStarts (c : MqClient) (memory : Nat → UInt8) :
    TesterReturn α → Tester α → Prop
  | refused (res : Response) (next : Bool × Response → TestProgram α) :
    TesterStarts c memory (.submitted false res next) ⟨(), overQueues c memory (next (false, res))⟩
  | submitted (res : Response) (next : Bool × Response → TestProgram α) :
    TesterStarts c memory (.submitted true res next) ⟨(), awaiting c res next⟩
  | again (res : Response) (next : Bool × Response → TestProgram α) :
    TesterStarts c memory (.awaited none res next) ⟨(), awaiting c res next⟩
  | returned (r : Sent) (res : Response) (next : Bool × Response → TestProgram α) :
    TesterStarts c memory (.awaited (some r) res next)
      ⟨(), overQueues c memory (next (r.result, r.res))⟩

def testing (c : MqClient) (memory : Nat → UInt8) :
    Behaviour Queue UInt8 Unit (TesterReturn α) where
  record _ _ := ()
  starts _ := TesterStarts c memory

abbrev Answerer (σ : Type) := Process Queue UInt8 (TestedReceiver σ) ReceiverReturn

/-- How `receiver_loop` goes on. -/
inductive AnswererStarts (h : Handlers σ) (R : TestedReceiver σ) :
    ReceiverReturn → Answerer σ → Prop
  | refused (c : MqCommunication) :
    AnswererStarts h R (.received false c) ⟨R, ReceiverProcess.receiving c⟩
  | received (c : MqCommunication) :
    AnswererStarts h R (.received true c)
      ⟨(R.asked c.mCurrentReq).served h,
        ReceiverProcess.responding c ((R.asked c.mCurrentReq).handled h).res⟩
  | responded (sent : Bool) (c : MqCommunication) :
    AnswererStarts h R (.responded sent c) ⟨R, ReceiverProcess.receiving c⟩

def answering (h : Handlers σ) : Behaviour Queue UInt8 (TestedReceiver σ) ReceiverReturn where
  record R _ := R
  starts := AnswererStarts h

/-- A test program and the receiver that it tests, with their two queues. -/
structure Session (α σ : Type) where
  tester : Tester α
  receiver : Answerer σ
  queues : Queues

/-- One call of either process. None is made to fail. -/
inductive Step (h : Handlers σ) (c : MqClient) (memory : Nat → UInt8) (s : Session α σ) :
    Session α σ → Prop
  | tester {P : Tester α} {q : Queues}
    (hP : (testing c memory).Step mqAttr False s.tester s.queues P q) :
    Step h c memory s { s with tester := P, queues := q }
  | receiver {P : Answerer σ} {q : Queues}
    (hP : (answering h).Step mqAttr False s.receiver s.queues P q) :
    Step h c memory s { s with receiver := P, queues := q }

/-- The receiver between two rounds, and the test program before its next request. -/
def between (c : MqClient) (memory : Nat → UInt8) (pid : Pid) (p : TestProgram α)
    (R : TestedReceiver σ) : Session α σ where
  tester := ⟨(), overQueues c memory p⟩
  receiver := ⟨R, ReceiverProcess.receiving (MqCommunication.listening pid R.mCurrentReq)⟩
  queues _ := []

/-- Every request that the program comes to fits in a message. -/
def RequestsFit (h : Handlers σ) (R : TestedReceiver σ) : TestProgram α → Prop
  | .finished _ => True
  | .request command payload res next =>
    let R := R.asked (Request.of command payload)
    5 + payload.bytes.length ≤ mqMaxLength ∧
      RequestsFit h (R.served h) (next (returned res (R.handled h).res))

/-- Every response does that the program comes to. -/
def ResponsesFit (h : Handlers σ) (R : TestedReceiver σ) : TestProgram α → Prop
  | .finished _ => True
  | .request command payload res next =>
    let R := R.asked (Request.of command payload)
    Fits (R.handled h).res ∧ ResponsesFit h (R.served h) (next (returned res (R.handled h).res))

section

variable {h : Handlers σ} {c : MqClient} {memory : Nat → UInt8} {s : Session α σ}

theorem step_iff_of_tester {P₁ : Tester α} {q₁ : Queues}
    (ht : ∀ P q, (testing c memory).Step mqAttr False s.tester s.queues P q ↔ P = P₁ ∧ q = q₁)
    (hr : ∀ P q, ¬(answering h).Step mqAttr False s.receiver s.queues P q) (t : Session α σ) :
    Step h c memory s t ↔ t = { s with tester := P₁, queues := q₁ } := by
  constructor
  · intro hs
    cases hs with
    | tester hP =>
      obtain ⟨rfl, rfl⟩ := (ht _ _).mp hP
      rfl
    | receiver hP => exact absurd hP (hr _ _)
  · rintro rfl
    exact .tester ((ht _ _).mpr ⟨rfl, rfl⟩)

theorem step_iff_of_receiver {P₁ : Answerer σ} {q₁ : Queues}
    (ht : ∀ P q, ¬(testing c memory).Step mqAttr False s.tester s.queues P q)
    (hr : ∀ P q, (answering h).Step mqAttr False s.receiver s.queues P q ↔ P = P₁ ∧ q = q₁)
    (t : Session α σ) :
    Step h c memory s t ↔ t = { s with receiver := P₁, queues := q₁ } := by
  constructor
  · intro hs
    cases hs with
    | tester hP => exact absurd hP (ht _ _)
    | receiver hP =>
      obtain ⟨rfl, rfl⟩ := (hr _ _).mp hP
      rfl
  · rintro rfl
    exact .receiver ((hr _ _).mpr ⟨rfl, rfl⟩)

end

section

variable {h : Handlers σ} {memory : Nat → UInt8} {pid : Pid} {R : TestedReceiver σ}
  {command : UInt8} {payload : Payload} {prior res : Response} {req : Request}
  {next : Bool × Response → TestProgram α} {q : Queues}

theorem tester_waits (hq : q .responses = []) (P : Tester α) (q' : Queues) :
    ¬(testing (MqClient.opened pid true) memory).Step mqAttr False
      ⟨(), awaiting (MqClient.opened pid true) prior next⟩ q P q' := by
  apply Behaviour.not_step
  simp [awaiting, MqClient.awaitResponse, MqClient.opened, Program.bind, Program.step, hq,
    Access.reads, mqAttr]

theorem receiver_waits (hq : q .requests = []) (P : Answerer σ) (q' : Queues) :
    ¬(answering h).Step mqAttr False
      ⟨R, ReceiverProcess.receiving (MqCommunication.listening pid req)⟩ q P q' := by
  apply Behaviour.not_step
  simp [ReceiverProcess.receiving, MqCommunication.receiveRequest, MqCommunication.listening,
    MqCommunication.opened, Program.bind, Program.step, hq, Access.reads, mqAttr]

theorem tester_submits (hl : 5 + payload.bytes.length ≤ mqMaxLength) (hq : q .requests = [])
    (P : Tester α) (q' : Queues) :
    (testing (MqClient.opened pid true) memory).Step mqAttr False
        ⟨(), overQueues (MqClient.opened pid true) memory (.request command payload prior next)⟩
        q P q' ↔
      P = ⟨(), awaiting (MqClient.opened pid true) prior next⟩ ∧
        q' = Function.update q .requests [requestMessage pid (Request.of command payload)] := by
  have hm : slice (requestBuffer pid (Request.of command payload) memory).memory 0
      (5 + (Request.of command payload).dataLength.toNat) =
        requestMessage pid (Request.of command payload) := by
    apply slice_requestBuffer
    rw [Request.of_data, Request.of_dataLength]
  have hlen : (requestMessage pid (Request.of command payload)).length ≤ mqAttr.messageSize := by
    rw [requestMessage_of, length_message]
    exact hl
  have hs : (overQueues (MqClient.opened pid true) memory
      (.request command payload prior next)).step mqAttr false q =
        some ⟨.done (.submitted true prior next),
          Function.update q .requests [requestMessage pid (Request.of command payload)],
          .sent .requests (requestMessage pid (Request.of command payload))⟩ := by
    rw [← hm] at hlen ⊢
    have hroom : (q .requests).length < mqMaxMsg := by
      rw [hq]
      decide
    refine (Program.step_mqSend_room (by rfl) hlen hroom).trans ?_
    rw [hq]
    rfl
  apply Behaviour.step_iff_of_done hs
  intro P'
  constructor
  · intro hP
    cases hP
    rfl
  · rintro rfl
    exact TesterStarts.submitted prior next

/-- The response arrives as it would be returned by a direct call. -/
theorem storeResponse_responseMessage {p : Payload} (hd : res.data.getD [] = p.bytes)
    (hl : res.dataLength = p.length) :
    storeResponse prior (responseMessage pid res) =
      ⟨(returned prior res).1, (returned prior res).2⟩ := by
  have hm : responseMessage pid res = pidToBytes pid ++ res.responseStatus :: p.bytes := by
    rw [responseMessage, hd, hl, Payload.toNat_length, List.take_length]
  rw [hm, storeResponse, getD_message, receivedData_message, dataLength_message]
  by_cases hf : Failed res.responseStatus
  · rw [returned_of_failed hf]
    by_cases he : res.responseStatus = Status.error.toByte
    · exact if_pos he
    · exact (if_neg he).trans (if_pos (hf.resolve_left he))
  · obtain ⟨he, hmal⟩ := not_or.mp hf
    rw [returned_of_not_failed hf hd hl]
    exact (if_neg he).trans (if_neg hmal)

theorem tester_returns {p : Payload} (hd : res.data.getD [] = p.bytes)
    (hl : res.dataLength = p.length) (hq : q .responses = [responseMessage pid res])
    (P : Tester α) (q' : Queues) :
    (testing (MqClient.opened pid true) memory).Step mqAttr False
        ⟨(), awaiting (MqClient.opened pid true) prior next⟩ q P q' ↔
      P = ⟨(), overQueues (MqClient.opened pid true) memory (next (returned prior res))⟩ ∧
        q' = Function.update q .responses [] := by
  have hp : receivedPid (responseMessage pid res) = pid := receivedPid_pidToBytes pid _
  have hs : (awaiting (MqClient.opened pid true) prior next).step mqAttr false q =
      some ⟨.done (.awaited (some (storeResponse prior (responseMessage pid res))) prior next),
        Function.update q .responses [], .received .responses (responseMessage pid res)⟩ := by
    refine (Program.step_mqReceive_cons (by rfl) (Nat.le_refl mqMaxLength) hq).trans ?_
    rw [MqClient.responseArrived_own (le_length_responseMessage pid res) hp]
    rfl
  rw [storeResponse_responseMessage hd hl] at hs
  apply Behaviour.step_iff_of_done hs
  intro P'
  constructor
  · intro hP
    cases hP
    rfl
  · rintro rfl
    exact TesterStarts.returned ⟨(returned prior res).1, (returned prior res).2⟩ prior next

theorem receiver_receives
    (hq : q .requests = [requestMessage pid (Request.of command payload)])
    (P : Answerer σ) (q' : Queues) :
    (answering h).Step mqAttr False
        ⟨R, ReceiverProcess.receiving (MqCommunication.listening pid req)⟩ q P q' ↔
      P = ⟨(R.asked (Request.of command payload)).served h, ReceiverProcess.responding
          (MqCommunication.listening pid (Request.of command payload))
          ((R.asked (Request.of command payload)).handled h).res⟩ ∧
        q' = Function.update q .requests [] := by
  have hl : 5 ≤ (requestMessage pid (Request.of command payload)).length := by
    rw [requestMessage_of, length_message]
    exact Nat.le_add_right 5 _
  have ha : Addressed pid (requestMessage pid (Request.of command payload)) :=
    Or.inr (receivedPid_pidToBytes pid _)
  have hr : receivedRequest (requestMessage pid (Request.of command payload)) =
      Request.of command payload := by
    rw [requestMessage_of, receivedRequest_message]
  have hs : (ReceiverProcess.receiving (MqCommunication.listening pid req)).step mqAttr false q =
      some ⟨.done (.received true (MqCommunication.listening pid (Request.of command payload))),
        Function.update q .requests [],
        .received .requests (requestMessage pid (Request.of command payload))⟩ := by
    refine (Program.step_mqReceive_cons (by rfl) (Nat.le_refl mqMaxLength) hq).trans ?_
    rw [MqCommunication.requestArrived_addressed hl ha, hr]
    rfl
  apply Behaviour.step_iff_of_done hs
  intro P'
  constructor
  · intro hP
    cases hP
    rfl
  · rintro rfl
    exact AnswererStarts.received (MqCommunication.listening pid (Request.of command payload))

/-- A response that does not fit is refused, and the receiver goes on as if it had been sent. -/
theorem receiver_responds (hl : (res.data.getD []).length = res.dataLength.toNat)
    (hq : q .responses = []) (P : Answerer σ) (q' : Queues) :
    (answering h).Step mqAttr False
        ⟨R, ReceiverProcess.responding (MqCommunication.listening pid req) res⟩ q P q' ↔
      P = ⟨R, ReceiverProcess.receiving (MqCommunication.listening pid req)⟩ ∧
        q' = if Fits res then Function.update q .responses [responseMessage pid res] else q := by
  have hlen := length_responseMessage hl pid
  have hstarts : ∀ sent (P' : Answerer σ),
      (answering h).starts R (.responded sent (MqCommunication.listening pid req)) P' ↔
        P' = ⟨R, ReceiverProcess.receiving (MqCommunication.listening pid req)⟩ := by
    intro sent P'
    constructor
    · intro hP
      cases hP
      rfl
    · rintro rfl
      exact AnswererStarts.responded sent _
  by_cases hf : Fits res
  · have hroom : (q .responses).length < mqMaxMsg := by
      rw [hq]
      decide
    have hle : (responseMessage pid res).length ≤ mqAttr.messageSize := hlen.trans_le hf
    have hs : (ReceiverProcess.responding (MqCommunication.listening pid req) res).step mqAttr
        false q = some ⟨.done (.responded true (MqCommunication.listening pid req)),
          Function.update q .responses [responseMessage pid res],
          .sent .responses (responseMessage pid res)⟩ := by
      refine (Program.step_mqSend_room (by rfl) hle hroom).trans ?_
      rw [hq]
      rfl
    rw [if_pos hf]
    exact Behaviour.step_iff_of_done hs (hstarts true)
  · have hn : ¬(Access.writeOnly.writes = true ∧
        (responseMessage pid res).length ≤ mqAttr.messageSize) := by
      rw [hlen]
      exact fun hm => hf hm.2
    have hs : (ReceiverProcess.responding (MqCommunication.listening pid req) res).step mqAttr
        false q = some ⟨.done (.responded false (MqCommunication.listening pid req)), q,
          .refused (responseMessage pid res)⟩ := Program.step_mqSend_refused hn
    rw [if_neg hf]
    exact Behaviour.step_iff_of_done hs (hstarts false)

end

section

variable {h : Handlers σ} {memory : Nat → UInt8} {pid : Pid} {R : TestedReceiver σ}
  {command : UInt8} {payload : Payload} {prior : Response}
  {next : Bool × Response → TestProgram α}

/-- The test program waits for a response, and no message is in the queues. -/
def lost (pid : Pid) (prior : Response) (next : Bool × Response → TestProgram α)
    (R : TestedReceiver σ) : Session α σ where
  tester := ⟨(), awaiting (MqClient.opened pid true) prior next⟩
  receiver := ⟨R, ReceiverProcess.receiving (MqCommunication.listening pid R.mCurrentReq)⟩
  queues _ := []

theorem lost_stuck (t : Session α σ) :
    ¬Step h (MqClient.opened pid true) memory (lost pid prior next R) t := by
  intro hs
  cases hs with
  | tester hP => exact tester_waits rfl _ _ hP
  | receiver hP => exact receiver_waits rfl _ _ hP

theorem finished_stuck (value : α) (t : Session α σ) :
    ¬Step h (MqClient.opened pid true) memory
      (between (MqClient.opened pid true) memory pid (.finished value) R) t := by
  intro hs
  cases hs with
  | tester hP => exact Behaviour.not_step rfl hP
  | receiver hP => exact receiver_waits rfl _ _ hP

theorem update_empty (n : Queue) (messages : List Message) :
    Function.update (Function.update (fun _ => []) n messages : Queues) n [] = fun _ => [] := by
  rw [Function.update_idem]
  exact Function.update_eq_self n _

/-- One call of the test program, up to the response. -/
theorem completes_request_iff (hl : 5 + payload.bytes.length ≤ mqMaxLength)
    {R' : TestedReceiver σ} (hR : R' = R.asked (Request.of command payload))
    {final : Session α σ} :
    Completes (Step h (MqClient.opened pid true) memory)
        (between (MqClient.opened pid true) memory pid (.request command payload prior next) R)
        final ↔
      Completes (Step h (MqClient.opened pid true) memory)
        (if Fits (R'.handled h).res then between (MqClient.opened pid true) memory pid
            (next (returned prior (R'.handled h).res)) (R'.served h)
          else lost pid prior next (R'.served h)) final := by
  subst hR
  have hlen : ((((R.asked (Request.of command payload)).handled h).res).data.getD []).length =
      ((R.asked (Request.of command payload)).handled h).res.dataLength.toNat := by
    rw [TestedReceiver.dataLength_handled, Payload.toNat_length]
    rfl
  have hdl := (R.asked (Request.of command payload)).dataLength_handled h
  have hne : Queue.responses ≠ Queue.requests := by decide
  refine (completes_iff_of_step (step_iff_of_tester (tester_submits hl rfl)
    (receiver_waits rfl))).trans ?_
  refine (completes_iff_of_step (step_iff_of_receiver
    (tester_waits (Function.update_of_ne hne
      [requestMessage pid (Request.of command payload)] fun _ => []))
    (receiver_receives (Function.update_self _ _ _)))).trans ?_
  rw [between]
  dsimp only
  rw [update_empty]
  refine (completes_iff_of_step (step_iff_of_receiver (tester_waits rfl)
    (receiver_responds hlen rfl))).trans ?_
  by_cases hf : Fits ((R.asked (Request.of command payload)).handled h).res
  · rw [if_pos hf, if_pos hf]
    refine (completes_iff_of_step (step_iff_of_tester
      (tester_returns (p := (R.asked (Request.of command payload)).payload h) rfl hdl
        (Function.update_self _ _ _))
      (receiver_waits (Function.update_of_ne hne.symm [responseMessage pid
        ((R.asked (Request.of command payload)).handled h).res] fun _ => [])))).trans ?_
    dsimp only
    rw [update_empty]
    rfl
  · rw [if_neg hf, if_neg hf]
    rfl

/-- Over queues, too, a test program comes to what it would come to if it called `handle_request`
itself, if and only if every response on the way fits in a message. -/
theorem session_completes_iff (h : Handlers σ) (memory : Nat → UInt8) (pid : Pid)
    (R : TestedReceiver σ) (p : TestProgram α) (hq : RequestsFit h R p) :
    Completes (Step h (MqClient.opened pid true) memory)
        (between (MqClient.opened pid true) memory pid p R)
        (between (MqClient.opened pid true) memory pid (.finished (p.directly h R).1)
          (p.directly h R).2) ↔ ResponsesFit h R p := by
  induction p generalizing R with
  | finished value => exact iff_of_true (completes_of_stuck (finished_stuck value)) trivial
  | request command payload prior next ih =>
    obtain ⟨hl, hq⟩ := hq
    rw [completes_request_iff hl rfl]
    by_cases hf : Fits ((R.asked (Request.of command payload)).handled h).res
    · rw [if_pos hf, ResponsesFit, and_iff_right hf]
      exact ih _ _ hq
    · rw [if_neg hf, ResponsesFit]
      refine iff_of_false (not_completes_of_stuck lost_stuck fun he => ?_) fun hr => hf hr.1
      have hp := congrArg (fun s => s.tester.program) he
      cases hp

theorem lookAround_over_queues :
    Completes (Step (silent Unit) (MqClient.opened 1 true) fun _ => 0)
      (between (MqClient.opened 1 true) (fun _ => 0) 1 lookAround idleReceiver)
      (between (MqClient.opened 1 true) (fun _ => 0) 1
        (.finished (true, ⟨0, some (List.replicate 8 0), 8⟩))
        (lookAround.directly (silent Unit) idleReceiver).2) := by
  have hq : RequestsFit (silent Unit) idleReceiver lookAround := ⟨by decide, by decide, trivial⟩
  have hr : ResponsesFit (silent Unit) idleReceiver lookAround := ⟨by decide, by decide, trivial⟩
  exact (session_completes_iff (silent Unit) (fun _ => 0) 1 idleReceiver lookAround hq).mpr hr

end

end VpTesting.QueueSessions

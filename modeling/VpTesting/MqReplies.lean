import VpTesting.MqAnswers
import VpTesting.MqRequests
import VpTesting.ReplyOrder

namespace VpTesting.MqReplies

open VpTesting.MessageQueue VpTesting.Types VpTesting.MqTestingCommunication
  VpTesting.MqTestingClient VpTesting.MqProcesses VpTesting.MqAnswers VpTesting.ReplyOrder

/-- The queues, and the requests that the receiver has yet to answer, with their responses. -/
structure Line where
  queues : Queues := fun _ => []
  unanswered : List (Request × Response) := []

/-- The receiver sends one response after the other. -/
def serve (pid : Pid) : List (Request × Response) → Queues → Option Queues
  | [], q => some q
  | x :: xs, q =>
    (((MqCommunication.listening pid x.1).sendResponse x.2).run mqAttr [false] q).bind fun r =>
      serve pid xs r.2

def Sized (xs : List (Request × Response)) : Prop :=
  ∀ x ∈ xs, (x.2.data.getD []).length = x.2.dataLength.toNat

theorem run_sendResponse {pid : Pid} {req : Request} {res : Response} {q q' : Queues} {sent : Bool}
    (hl : (res.data.getD []).length = res.dataLength.toNat)
    (h : ((MqCommunication.listening pid req).sendResponse res).run mqAttr [false] q =
      some (sent, q')) :
    q' .responses = q .responses ++ replies pid [(req, res)] := by
  obtain ⟨r, hr, hrun⟩ := Option.bind_eq_some_iff.mp h
  have hlen := length_responseMessage hl pid
  by_cases hf : Fits res
  · have hle : (responseMessage pid res).length ≤ mqAttr.messageSize := hlen.trans_le hf
    obtain ⟨-, rfl⟩ := Program.step_mqSend rfl hle hr
    rw [Program.run_done] at hrun
    obtain ⟨-, rfl⟩ := Prod.mk.inj (Option.some.inj hrun)
    rw [replies_fits pid (x := (req, res)) hf]
    exact Function.update_self Queue.responses (q .responses ++ [responseMessage pid res]) q
  · have hn : ¬(Access.writeOnly.writes = true ∧
        (responseMessage pid res).length ≤ mqAttr.messageSize) := by
      rw [hlen]
      exact fun hm => hf hm.2
    have hs : ((MqCommunication.listening pid req).sendResponse res).step mqAttr false q =
        some ⟨.done false, q, .refused (responseMessage pid res)⟩ :=
      Program.step_mqSend_refused hn
    obtain rfl := Option.some.inj (hs.symm.trans hr)
    rw [Program.run_done] at hrun
    obtain ⟨-, rfl⟩ := Prod.mk.inj (Option.some.inj hrun)
    rw [replies_not_fits pid (x := (req, res)) hf, List.append_nil]

theorem serve_responses {pid : Pid} {xs : List (Request × Response)} {q q' : Queues}
    (hs : Sized xs) (h : serve pid xs q = some q') :
    q' .responses = q .responses ++ replies pid xs := by
  induction xs generalizing q with
  | nil =>
    obtain rfl := Option.some.inj h
    exact (List.append_nil _).symm
  | cons x xs ih =>
    obtain ⟨⟨sent, q₁⟩, hr, h⟩ := Option.bind_eq_some_iff.mp h
    dsimp only at h
    obtain ⟨hx, hxs⟩ := List.forall_mem_cons.mp hs
    rw [ih hxs h, run_sendResponse hx hr, List.append_assoc, ← replies_append,
      List.singleton_append]

/-- A call of `send_request`: the request, what the response object and the buffer hold before,
the response to the request, how many of the unanswered requests the receiver answers before the
client receives, whether `mq_receive` fails, and what the receiver leaves of the request queue. -/
structure MqCall where
  req : FittingRequest
  res : Response
  memory : Nat → UInt8
  status : Status
  data : Payload
  served : Nat
  fails : Bool
  consume : List Message → List Message

namespace MqCall

def answer (a : MqCall) : Response := Response.of a.status.toByte a.data

def reply (a : MqCall) : Request × Response := (a.req.request, a.answer)

/-- After its `mq_send` the client waits while the receiver is at work. All responses in the queue
are from its receiver, so the first one ends the loop. -/
def call (pid : Pid) (a : MqCall) (s : Line) : Option (Taking × Line) :=
  ((MqRequests.call pid a.memory a.req.request a.res 1).step mqAttr false s.queues).bind fun sent =>
    let unanswered := s.unanswered ++ [a.reply]
    (serve pid (unanswered.take a.served)
      (Function.update sent.queues .requests (a.consume (sent.queues .requests)))).bind fun q =>
        (sent.program.run mqAttr [a.fails] q).bind fun r =>
          r.1.map fun x =>
            let taken := (q .responses).length - (r.2 .responses).length
            (⟨(replies pid [a.reply]).length, taken, decide (0 < taken), x.result⟩,
              { queues := r.2, unanswered := unanswered.drop a.served })

def Answers (a : MqCall) : Prop := a.fails = false

/-- The receive fails, and there is a message with the response. -/
def Unfinished (a : MqCall) : Prop := a.fails = true ∧ Fits a.answer

variable {pid : Pid} {a : MqCall} {s t : Line} {r : Taking}

/-- With one receive the call ends if that fails, or takes a message and does not put it back. -/
theorem run_receive {res : Response} {q q' : Queues} {x : Sent} {fails : Bool}
    (h : (((MqClient.opened pid true).awaitResponse res).loop 1).run mqAttr [fails] q =
      some (some x, q')) :
    (fails = true ∧ x.result = false ∧ q' = q) ∨
      (fails = false ∧ ∃ message rest, q .responses = message :: rest ∧ q' .responses = rest) := by
  obtain ⟨step, hstep, hrun⟩ := Option.bind_eq_some_iff.mp h
  cases fails with
  | true =>
    rw [← Option.some.inj hstep] at hrun
    obtain ⟨hx, rfl⟩ := Prod.mk.inj (Option.some.inj hrun)
    rw [← Option.some.inj hx]
    exact Or.inl ⟨rfl, rfl, rfl⟩
  | false =>
    obtain ⟨⟨⟩, -⟩ | ⟨message, rest, hq, rfl⟩ :=
      Program.step_mqReceive rfl rfl (Nat.le_refl mqMaxLength) hstep
    refine Or.inr ⟨rfl, message, rest, hq, ?_⟩
    have harrived : (((MqClient.opened pid true).responseArrived res (.ok message)).bind
        (((MqClient.opened pid true).awaitResponse res).loop 0).unlessSome).run mqAttr []
          (Function.update q .responses rest) = some (some x, q') := hrun
    by_cases hl : message.length < 5
    · rw [MqClient.responseArrived_short hl] at harrived
      obtain ⟨-, rfl⟩ := Prod.mk.inj (Option.some.inj harrived)
      exact Function.update_self Queue.responses rest q
    by_cases hp : receivedPid message = pid
    · rw [MqClient.responseArrived_own (Nat.not_lt.mp hl) hp] at harrived
      obtain ⟨-, rfl⟩ := Prod.mk.inj (Option.some.inj harrived)
      exact Function.update_self Queue.responses rest q
    · rw [MqClient.responseArrived_foreign (Nat.not_lt.mp hl) hp] at harrived
      cases harrived

/-- A call that returns has received once, after the receiver was at work. -/
theorem call_returns (h : a.call pid s = some (r, t)) :
    ∃ q q', q .responses = s.queues .responses ∧
      serve pid ((s.unanswered ++ [a.reply]).take a.served) q = some q' ∧
      t.unanswered = (s.unanswered ++ [a.reply]).drop a.served ∧
      r.size = (replies pid [a.reply]).length ∧
      r.taken = (q' .responses).length - (t.queues .responses).length ∧
      r.answered = decide (0 < r.taken) ∧
      ((a.fails = true ∧ r.result = false ∧ t.queues = q') ∨
        (a.fails = false ∧ ∃ message, q' .responses = message :: t.queues .responses)) := by
  obtain ⟨sent, hsent, h⟩ := Option.bind_eq_some_iff.mp h
  obtain ⟨q', hserve, h⟩ := Option.bind_eq_some_iff.mp h
  obtain ⟨⟨y, q₂⟩, hrun, h⟩ := Option.bind_eq_some_iff.mp h
  obtain ⟨x, hx, heq⟩ := Option.map_eq_some_iff.mp h
  obtain ⟨rfl, rfl⟩ := Prod.mk.inj heq
  obtain rfl : y = some x := hx
  have hle : (pidToBytes pid ++ a.req.command :: a.req.payload.bytes).length ≤
      mqAttr.messageSize := by
    rw [length_message]
    exact a.req.fits
  rw [FittingRequest.request, MqRequests.call_eq] at hsent
  obtain ⟨-, rfl⟩ := Program.step_mqSend rfl hle hsent
  refine ⟨_, q', ?_, hserve, rfl, rfl, rfl, rfl, ?_⟩
  · rfl
  · obtain ⟨hf, hresult, hq⟩ | ⟨hf, message, rest, hq, hrest⟩ := run_receive hrun
    · exact Or.inl ⟨hf, hresult, hq⟩
    · refine Or.inr ⟨hf, message, ?_⟩
      rw [hq, ← hrest]

theorem answered_iff_answers (h : a.call pid s = some (r, t)) : r.answered = true ↔ a.Answers := by
  obtain ⟨q, q', -, -, -, -, htaken, hanswered, hend⟩ := call_returns h
  rw [hanswered, htaken, decide_eq_true_iff]
  obtain ⟨hf, -, rfl⟩ | ⟨hf, message, hq'⟩ := hend
  · exact iff_of_false (by omega) fun ha => Bool.false_ne_true (ha.symm.trans hf)
  · rw [hq', List.length_cons]
    exact iff_of_true (by omega) hf

theorem unanswered (h : a.call pid s = some (r, t)) (ha : ¬a.Answers) :
    r.result = false ∧ r.taken ≤ r.size := by
  obtain ⟨q, q', -, -, -, -, htaken, -, hend⟩ := call_returns h
  obtain ⟨-, hresult, rfl⟩ | ⟨hf, -⟩ := hend
  · exact ⟨hresult, by omega⟩
  · exact absurd hf ha

end MqCall

/-- No response is in the queue, and none that is still to come gets there. -/
structure Idle (pid : Pid) (s : Line) : Prop where
  queue : s.queues .responses = []
  replies : replies pid s.unanswered = []
  sized : Sized s.unanswered

namespace MqCall

variable {pid : Pid} {a : MqCall} {s t : Line} {r : Taking}

theorem sized_append (hs : Sized s.unanswered) : Sized (s.unanswered ++ [a.reply]) := by
  refine List.forall_mem_append.mpr ⟨hs, List.forall_mem_singleton.mpr ?_⟩
  rw [reply, answer, Response.of, Payload.getD_pointer, Payload.toNat_length]

/-- If nothing else is on its way, a call finds only the response to it, if that fits. -/
theorem call_idle (h : a.call pid s = some (r, t)) (hs : Idle pid s) :
    r.size = (replies pid [a.reply]).length ∧ Sized t.unanswered ∧
      ((a.fails = true ∧ r.result = false ∧ r.taken = 0 ∧
        replies pid [a.reply] = t.queues .responses ++ replies pid t.unanswered) ∨
      (a.fails = false ∧ r.taken = 1 ∧ ∃ message,
        replies pid [a.reply] = message :: (t.queues .responses ++ replies pid t.unanswered))) := by
  obtain ⟨q, q', hq, hserve, ht, hsize, htaken, -, hend⟩ := call_returns h
  have hsized := sized_append (a := a) hs.sized
  have hq' := serve_responses (fun x hx => hsized x (List.mem_of_mem_take hx)) hserve
  rw [hq, hs.queue, List.nil_append] at hq'
  have hall : replies pid [a.reply] = q' .responses ++ replies pid t.unanswered := by
    rw [hq', ht, ← replies_append, List.take_append_drop, replies_append, hs.replies,
      List.nil_append]
  refine ⟨hsize, ?_, ?_⟩
  · rw [ht]
    exact fun x hx => hsized x (List.mem_of_mem_drop hx)
  obtain ⟨hf, hresult, rfl⟩ | ⟨hf, message, hq'⟩ := hend
  · exact Or.inl ⟨hf, hresult, by omega, hall⟩
  · rw [hq', List.length_cons, Nat.add_sub_cancel_left] at htaken
    refine Or.inr ⟨hf, htaken, message, ?_⟩
    rw [hall, hq', List.cons_append]

theorem length_replies_le_one (pid : Pid) (x : Request × Response) :
    (replies pid [x]).length ≤ 1 := by
  rw [replies, List.length_map]
  exact List.length_filter_le _ _

theorem finished (h : a.call pid s = some (r, t)) (hs : Idle pid s) (hu : ¬a.Unfinished) :
    r.taken = r.size ∧ Idle pid t := by
  obtain ⟨hsize, hsized, hend⟩ := call_idle h hs
  have hle := length_replies_le_one pid a.reply
  have hleft : t.queues .responses ++ replies pid t.unanswered = [] ∧ r.taken = r.size := by
    obtain ⟨hf, -, htaken, hall⟩ | ⟨-, htaken, message, hall⟩ := hend
    · have hnil := replies_not_fits pid (x := a.reply) fun hfits => hu ⟨hf, hfits⟩
      rw [hsize, htaken, ← hall, hnil]
      exact ⟨rfl, rfl⟩
    · rw [hall, List.length_cons] at hle
      have hnil := List.length_eq_zero_iff.mp (Nat.le_zero.mp (Nat.le_of_succ_le_succ hle))
      rw [hsize, htaken, hall, hnil]
      exact ⟨rfl, rfl⟩
  obtain ⟨hnil, htaken⟩ := hleft
  obtain ⟨hqueue, hreplies⟩ := List.append_eq_nil_iff.mp hnil
  exact ⟨htaken, hqueue, hreplies, hsized⟩

theorem unfinished (h : a.call pid s = some (r, t)) (hs : Idle pid s) (hu : a.Unfinished) :
    r.result = false ∧ r.taken < r.size := by
  obtain ⟨hsize, -, hend⟩ := call_idle h hs
  obtain ⟨-, hresult, htaken, -⟩ | ⟨hf, -⟩ := hend
  · rw [hsize, htaken, replies_fits pid (x := a.reply) hu.2]
    exact ⟨hresult, Nat.zero_lt_one⟩
  · cases hu.1.symm.trans hf

end MqCall

/-- The calls of a client to its receiver over the queues. -/
def mqTransport (pid : Pid) : Transport MqCall Line where
  call := MqCall.call pid
  Idle := Idle pid
  Answers := MqCall.Answers
  Unfinished := MqCall.Unfinished
  Regular _ := True
  answered_iff_answers := MqCall.answered_iff_answers
  unanswered := MqCall.unanswered
  finished := MqCall.finished
  unfinished h hs hu := (MqCall.unfinished h hs hu).2
  failed h hs hu _ := (MqCall.unfinished h hs hu).1

end VpTesting.MqReplies

import VpTesting.MqProcesses

namespace VpTesting.ReceiverStages

open VpTesting.MessageQueue VpTesting.Types VpTesting.Processes VpTesting.HandlerCalls
  VpTesting.MqTestingCommunication VpTesting.MqProcesses

variable {σ : Type}

/-- The calls a receiver may be about to make. -/
inductive ReceiverStage
  | announcing
  | polling (prior : Request)
  | holding (prior : Request) (buffer : Message)
  | responding (req : Request) (res : Response)

/-- The program of a receiver at a stage. -/
def ReceiverStage.program (pid : Pid) : ReceiverStage → MqProgram ReceiverReturn
  | announcing => ReceiverProcess.announcing (MqCommunication.opened pid)
  | polling prior => ReceiverProcess.receiving (MqCommunication.listening pid prior)
  | holding prior buffer =>
    .mqSend (some { queue := .requests, access := .readWrite }) buffer
      fun _ => .done (.received false (MqCommunication.listening pid prior))
  | responding req res => ReceiverProcess.responding (MqCommunication.listening pid req) res

/-- The message that is to be put back. -/
def ReceiverStage.held : ReceiverStage → List Message
  | holding _ buffer => [buffer]
  | announcing | polling _ | responding _ _ => []

theorem program_responding (pid : Pid) (req : Request) (res : Response) :
    (ReceiverStage.responding req res).program pid =
      .mqSend (some { queue := .responses, access := .writeOnly }) (responseMessage pid res)
        fun sent => .done (.responded sent (MqCommunication.listening pid req)) := rfl

structure Receiver (σ : Type) where
  data : ReceiverData σ
  stage : ReceiverStage

def Receiver.toProcess (pid : Pid) (R : Receiver σ) : ReceiverProcess σ :=
  ⟨R.data, R.stage.program pid⟩

/-- The steps of a receiver. -/
inductive ReceiverMove (h : Handlers σ) (mayFail : Prop) (pid : Pid) :
    Receiver σ → Queues → Receiver σ → Queues → Prop
  | announce {d q} (hroom : (q .responses).length < mqMaxMsg) :
    ReceiverMove h mayFail pid ⟨d, .announcing⟩ q
      ⟨{ d with put := d.put ++ [readyMessage pid] }, .polling {}⟩
      (Function.update q .responses (q .responses ++ [readyMessage pid]))
  | interrupted {d q prior} (hf : mayFail) :
    ReceiverMove h mayFail pid ⟨d, .polling prior⟩ q ⟨d, .polling prior⟩ q
  | drop {d q prior buffer rest} (hq : q .requests = buffer :: rest) (hl : buffer.length < 5) :
    ReceiverMove h mayFail pid ⟨d, .polling prior⟩ q
      ⟨{ d with taken := d.taken ++ [buffer] }, .polling prior⟩
      (Function.update q .requests rest)
  | pass {d q prior buffer rest} (hq : q .requests = buffer :: rest) (hl : 5 ≤ buffer.length)
    (ha : ¬Addressed pid buffer) :
    ReceiverMove h mayFail pid ⟨d, .polling prior⟩ q
      ⟨{ d with taken := d.taken ++ [buffer] }, .holding prior buffer⟩
      (Function.update q .requests rest)
  | accept {d q prior buffer rest} (g : Indeterminate) (hq : q .requests = buffer :: rest)
    (hl : 5 ≤ buffer.length) (ha : Addressed pid buffer) :
    ReceiverMove h mayFail pid ⟨d, .polling prior⟩ q
      ⟨ReceiverProcess.handle h g (receivedRequest buffer)
          { d with taken := d.taken ++ [buffer] },
        .responding (receivedRequest buffer)
          (ReceiverProcess.response h g (receivedRequest buffer) d)⟩
      (Function.update q .requests rest)
  | putBack {d q prior buffer} (hl : buffer.length ≤ mqMaxLength)
    (hroom : (q .requests).length < mqMaxMsg) :
    ReceiverMove h mayFail pid ⟨d, .holding prior buffer⟩ q ⟨d, .polling prior⟩
      (Function.update q .requests (q .requests ++ [buffer]))
  | discard {d q prior buffer} (hl : mqMaxLength < buffer.length) :
    ReceiverMove h mayFail pid ⟨d, .holding prior buffer⟩ q ⟨d, .polling prior⟩ q
  | respond {d q req res} (hl : (responseMessage pid res).length ≤ mqMaxLength)
    (hroom : (q .responses).length < mqMaxMsg) :
    ReceiverMove h mayFail pid ⟨d, .responding req res⟩ q
      ⟨{ d with put := d.put ++ [responseMessage pid res] }, .polling req⟩
      (Function.update q .responses (q .responses ++ [responseMessage pid res]))
  | suppress {d q req res} (hl : mqMaxLength < (responseMessage pid res).length) :
    ReceiverMove h mayFail pid ⟨d, .responding req res⟩ q ⟨d, .polling req⟩ q

section

variable {h : Handlers σ} {mayFail : Prop} {pid : Pid} {d : ReceiverData σ} {q q' : Queues}
  {P : ReceiverProcess σ} {prior req : Request} {res : Response} {buffer : Message}

theorem announcing_step
    (hP : (ReceiverProcess.behaviour h).Step mqAttr mayFail
      ⟨d, ReceiverStage.announcing.program pid⟩ q P q') :
    ∃ R : Receiver σ, P = R.toProcess pid ∧
      ReceiverMove h mayFail pid ⟨d, .announcing⟩ q R q' := by
  cases hP with
  | call hf hr hs =>
    have hl : (readyMessage pid).length ≤ mqAttr.messageSize := by
      rw [length_readyMessage]
      decide
    obtain ⟨hroom, ⟨⟩⟩ := Program.step_mqSend (by rfl) hl hr
    cases hs.done with
    | announced c => exact ⟨_, rfl, .announce hroom⟩

theorem polling_step
    (hP : (ReceiverProcess.behaviour h).Step mqAttr mayFail
      ⟨d, (ReceiverStage.polling prior).program pid⟩ q P q') :
    ∃ R : Receiver σ, P = R.toProcess pid ∧
      ReceiverMove h mayFail pid ⟨d, .polling prior⟩ q R q' := by
  cases hP with
  | call hf hr hs =>
    obtain ⟨hfails, ⟨⟩⟩ | ⟨buffer, rest, hq, ⟨⟩⟩ :=
      Program.step_mqReceive (by rfl) (by rfl) (Nat.le_refl mqMaxLength) hr
    · cases hs.done with
      | refused c => exact ⟨_, rfl, .interrupted (hf hfails)⟩
    · by_cases hl : buffer.length < 5
      · simp only [MqCommunication.requestArrived_short hl] at hs
        cases hs.done with
        | refused c => exact ⟨⟨_, .polling prior⟩, rfl, .drop hq hl⟩
      · by_cases ha : Addressed pid buffer
        · simp only [MqCommunication.requestArrived_addressed (Nat.not_lt.mp hl) ha] at hs
          cases hs.done with
          | received c g => exact ⟨_, rfl, .accept g hq (Nat.not_lt.mp hl) ha⟩
        · simp only [MqCommunication.requestArrived_foreign (Nat.not_lt.mp hl) ha] at hs
          obtain rfl := hs.eq_of_ne_done (by rintro value ⟨⟩)
          exact ⟨⟨_, .holding prior buffer⟩, rfl, .pass hq (Nat.not_lt.mp hl) ha⟩

theorem holding_step
    (hP : (ReceiverProcess.behaviour h).Step mqAttr mayFail
      ⟨d, (ReceiverStage.holding prior buffer).program pid⟩ q P q') :
    ∃ R : Receiver σ, P = R.toProcess pid ∧
      ReceiverMove h mayFail pid ⟨d, .holding prior buffer⟩ q R q' := by
  cases hP with
  | call hf hr hs =>
    by_cases hl : buffer.length ≤ mqMaxLength
    · obtain ⟨hroom, ⟨⟩⟩ := Program.step_mqSend (by rfl) hl hr
      cases hs.done with
      | refused c => exact ⟨⟨d, .polling prior⟩, rfl, .putBack hl hroom⟩
    · rw [ReceiverStage.program, Program.step_mqSend_refused (fun hn => hl hn.2)] at hr
      cases hr
      cases hs.done with
      | refused c => exact ⟨⟨d, .polling prior⟩, rfl, .discard (Nat.not_le.mp hl)⟩

theorem responding_step
    (hP : (ReceiverProcess.behaviour h).Step mqAttr mayFail
      ⟨d, (ReceiverStage.responding req res).program pid⟩ q P q') :
    ∃ R : Receiver σ, P = R.toProcess pid ∧
      ReceiverMove h mayFail pid ⟨d, .responding req res⟩ q R q' := by
  cases hP with
  | call hf hr hs =>
    by_cases hl : (responseMessage pid res).length ≤ mqMaxLength
    · obtain ⟨hroom, ⟨⟩⟩ := Program.step_mqSend (by rfl) hl hr
      cases hs.done with
      | responded sent c => exact ⟨_, rfl, .respond hl hroom⟩
    · rw [program_responding, Program.step_mqSend_refused (fun hn => hl hn.2)] at hr
      cases hr
      cases hs.done with
      | responded sent c => exact ⟨⟨d, .polling req⟩, rfl, .suppress (Nat.not_le.mp hl)⟩

/-- Every step of a receiver process is one of the steps of a receiver. -/
theorem receiver_step {R : Receiver σ}
    (hP : (ReceiverProcess.behaviour h).Step mqAttr mayFail (R.toProcess pid) q P q') :
    ∃ R', P = Receiver.toProcess pid R' ∧ ReceiverMove h mayFail pid R q R' q' := by
  obtain ⟨d, stage⟩ := R
  cases stage with
  | announcing => exact announcing_step hP
  | polling prior => exact polling_step hP
  | holding prior buffer => exact holding_step hP
  | responding req res => exact responding_step hP

/-- Every step of a receiver can be made by its process. -/
theorem step_of_receiverMove {R R' : Receiver σ} (hm : ReceiverMove h mayFail pid R q R' q') :
    (ReceiverProcess.behaviour h).Step mqAttr mayFail (R.toProcess pid) q
      (R'.toProcess pid) q' := by
  cases hm with
  | @announce d q hroom =>
    have hl : (readyMessage pid).length ≤ mqAttr.messageSize := by
      rw [length_readyMessage]
      decide
    exact .unfailing (Program.step_mqSend_room (by rfl) hl hroom)
      (.started (.announced _))
  | interrupted hf =>
    exact .failing hf Program.step_mqReceive_fails (.started (.refused _))
  | @drop d q prior buffer rest hq hl =>
    refine .unfailing
      (Program.step_mqReceive_cons (by rfl) (Nat.le_refl mqMaxLength) hq) ?_
    simp only [MqCommunication.requestArrived_short hl]
    exact .started (.refused _)
  | pass hq hl ha =>
    refine .unfailing
      (Program.step_mqReceive_cons (by rfl) (Nat.le_refl mqMaxLength) hq) ?_
    simp only [MqCommunication.requestArrived_foreign hl ha]
    exact .running (by rintro value ⟨⟩)
  | accept g hq hl ha =>
    refine .unfailing
      (Program.step_mqReceive_cons (by rfl) (Nat.le_refl mqMaxLength) hq) ?_
    simp only [MqCommunication.requestArrived_addressed hl ha]
    exact .started (.received _ g)
  | putBack hl hroom =>
    exact .unfailing (Program.step_mqSend_room (by rfl) hl hroom)
      (.started (.refused _))
  | discard hl =>
    exact .unfailing
      (Program.step_mqSend_refused fun hn => Nat.not_le.mpr hl hn.2) (.started (.refused _))
  | respond hl hroom =>
    exact .unfailing (Program.step_mqSend_room (by rfl) hl hroom)
      (.started (.responded true _))
  | suppress hl =>
    exact .unfailing
      (Program.step_mqSend_refused fun hn => Nat.not_le.mpr hl hn.2)
      (.started (.responded false _))

end

end VpTesting.ReceiverStages

import Mathlib.Algebra.Order.Group.Multiset
import VpTesting.ResponseRouting

namespace VpTesting.InFlight

open VpTesting.Types VpTesting.Processes VpTesting.HandlerCalls VpTesting.MqTestingCommunication
  VpTesting.MqTestingClient VpTesting.MqProcesses VpTesting.ReceiverStages
  VpTesting.ClientStages VpTesting.MqStages VpTesting.ResponseRouting

variable {ι κ σ : Type}

/-- The receiver is in `receive_request`. -/
def Listening : ReceiverStage → Prop
  | .polling _ | .holding _ _ => True
  | .announcing | .responding _ _ => False

/-- Between two calls of `send_request`: whether the client is started. -/
def started : ClientStage → Option Bool
  | .checking b _ | .looking b _ | .checkHolding b _ _ => some b
  | .submitting _ _ _ => some true
  | .awaiting _ _ | .awaitHolding _ _ _ => none

/-- The request that the client waits to be answered. -/
def pending : ClientStage → Option Request
  | .awaiting req _ | .awaitHolding req _ _ => some req
  | .checking _ _ | .looking _ _ | .checkHolding _ _ _ | .submitting _ _ _ => none

theorem started_of_idle {b : Bool} {stage : ClientStage} (hi : ClientStage.Idle b stage) :
    started stage = some b := by
  cases hi with
  | check => rfl
  | request hs => exact congrArg some hs.symm

section

variable (pid : Pid) (R R' : Receiver σ)

/-- What a receiver's step does: the messages that leave the request side for good, and
those that come to the response side. -/
inductive ReceiverEffect : Multiset Message → Multiset Message → Prop
  | listens {out : Multiset Message} (hR : Listening R.stage) (hR' : Listening R'.stage)
    (hd : R'.data.handled = R.data.handled) : ReceiverEffect out 0
  | announces (hR : R.stage = .announcing) (hR' : Listening R'.stage)
    (hd : R'.data.handled = R.data.handled) : ReceiverEffect 0 {readyMessage pid}
  | accepts {buffer : Message} {res : Response} (hR : Listening R.stage)
    (hR' : R'.stage = .responding (receivedRequest buffer) res) (ha : Addressed pid buffer)
    (hd : R'.data.handled = R.data.handled ++ [(receivedRequest buffer, res)]) :
    ReceiverEffect {buffer} 0
  | responds {req : Request} {res : Response} {put : Multiset Message}
    (hR : R.stage = .responding req res) (hR' : Listening R'.stage)
    (hd : R'.data.handled = R.data.handled) (hput : put ≤ {responseMessage pid res}) :
    ReceiverEffect 0 put

end

section

variable (receiverId : Pid) (C C' : Client)

/-- What a client's step does: the messages that come to the request side, and those that
leave the response side for good. -/
inductive ClientEffect : Multiset Message → Multiset Message → Prop
  | checks {b : Bool} {out : Multiset Message} (hC : started C.stage = some b)
    (hC' : started C'.stage = some b) (hs : C'.data.sent = C.data.sent)
    (hc : C'.data.completed = C.data.completed) : ClientEffect 0 out
  | takes {b b' : Bool} {buffer : Message} (hC : started C.stage = some b)
    (hC' : started C'.stage = some (b || b')) (hp : receivedPid buffer = receiverId)
    (hs : C'.data.sent = C.data.sent) (hc : C'.data.completed = C.data.completed) :
    ClientEffect 0 {buffer}
  | submits {req : FittingRequest} (hC : started C.stage = some true)
    (hC' : pending C'.stage = some req.request) (hs : C'.data.sent = C.data.sent ++ [req.request])
    (hc : C'.data.completed = C.data.completed) :
    ClientEffect {requestMessage receiverId req.request} 0
  | waits {req : Request} {out : Multiset Message} (hC : pending C.stage = some req)
    (hC' : pending C'.stage = some req) (hs : C'.data.sent = C.data.sent)
    (hc : C'.data.completed = C.data.completed) : ClientEffect 0 out
  | completes {req : Request} {res : Response} {buffer : Message}
    (hC : pending C.stage = some req) (hC' : started C'.stage = some true)
    (hp : receivedPid buffer = receiverId) (hs : C'.data.sent = C.data.sent)
    (hc : C'.data.completed = C.data.completed ++ [(req, storeResponse res buffer)]) :
    ClientEffect 0 {buffer}

end

theorem receivedPid_readyMessage (pid : Pid) : receivedPid (readyMessage pid) = pid :=
  receivedPid_pidToBytes pid readySignal

theorem receivedPid_responseMessage (pid : Pid) (res : Response) :
    receivedPid (responseMessage pid res) = pid :=
  receivedPid_pidToBytes pid _

/-- What a receiver puts in the response queue carries its process id. -/
theorem ReceiverEffect.receivedPid_put {pid : Pid} {R R' : Receiver σ}
    {out put : Multiset Message} (he : ReceiverEffect pid R R' out put) :
    ∀ buffer ∈ put, receivedPid buffer = pid := by
  intro buffer hb
  cases he with
  | listens | accepts => exact absurd hb (Multiset.notMem_zero buffer)
  | announces =>
    rw [Multiset.mem_singleton.mp hb]
    exact receivedPid_readyMessage pid
  | @responds req res put hR hR' hd hput =>
    rw [Multiset.mem_singleton.mp (Multiset.mem_of_le hput hb)]
    exact receivedPid_responseMessage pid res

/-- What a client puts in the request queue carries the id of its receiver. -/
theorem ClientEffect.receivedPid_put {receiverId : Pid} {C C' : Client}
    {put out : Multiset Message} (he : ClientEffect receiverId C C' put out) :
    ∀ buffer ∈ put, receivedPid buffer = receiverId := by
  intro buffer hb
  cases he with
  | checks | takes | waits | completes => exact absurd hb (Multiset.notMem_zero buffer)
  | @submits req =>
    rw [Multiset.mem_singleton.mp hb]
    exact receivedPid_requestMessage receiverId req

theorem receiver_effect {h : Handlers σ} {pid : Pid} {R R' : Receiver σ} {q q' : Queues}
    (hm : ReceiverMove h False pid R q R' q') :
    ∃ out put, ReceiverEffect pid R R' out put ∧
      Multiset.ofList (q' .requests) + out + Multiset.ofList R'.stage.held =
        Multiset.ofList (q .requests) + Multiset.ofList R.stage.held ∧
      Multiset.ofList (q' .responses) = Multiset.ofList (q .responses) + put := by
  cases hm with
  | announce =>
    refine ⟨0, _, .announces rfl trivial rfl, ?_, ?_⟩
    · simp [ReceiverStage.held]
    · rw [Function.update_self, coe_concat]
  | interrupted hf => exact hf.elim
  | @drop d q prior buffer rest hcons =>
    refine ⟨{buffer}, 0, .listens trivial trivial rfl, ?_, ?_⟩
    · rw [Function.update_self, hcons, coe_cons, add_comm (Multiset.ofList rest)]
    · simp
  | @pass d q prior buffer rest hcons =>
    refine ⟨0, 0, .listens trivial trivial rfl, ?_, ?_⟩
    · simp only [ReceiverStage.held, Function.update_self, hcons, coe_cons, Multiset.coe_nil,
        add_zero]
      exact add_comm _ _
    · simp
  | @accept d q prior buffer rest g hcons hl ha =>
    refine ⟨{buffer}, 0, .accepts trivial rfl ha rfl, ?_, ?_⟩
    · rw [Function.update_self, hcons, coe_cons, add_comm (Multiset.ofList rest)]
      rfl
    · simp
  | @putBack d q prior buffer =>
    refine ⟨0, 0, .listens trivial trivial rfl, ?_, ?_⟩
    · simp only [ReceiverStage.held, Function.update_self, coe_concat, Multiset.coe_nil, add_zero,
        Multiset.coe_singleton]
    · simp
  | @discard d q prior buffer =>
    refine ⟨{buffer}, 0, .listens trivial trivial rfl, ?_, ?_⟩
    · simp [ReceiverStage.held]
    · simp
  | respond =>
    refine ⟨0, _, .responds rfl trivial rfl (le_refl _), ?_, ?_⟩
    · simp [ReceiverStage.held]
    · rw [Function.update_self, coe_concat]
  | suppress =>
    refine ⟨0, 0, .responds rfl trivial rfl (Multiset.zero_le _), ?_, ?_⟩
    · simp [ReceiverStage.held]
    · simp

theorem client_effect {receiverId : Pid} {C C' : Client} {q q' : Queues}
    (hm : ClientMove False receiverId C q C' q')
    (hq : ∀ buffer ∈ q .responses, 5 ≤ buffer.length) :
    ∃ put out, ClientEffect receiverId C C' put out ∧
      Multiset.ofList (q' .requests) = Multiset.ofList (q .requests) + put ∧
      Multiset.ofList (q' .responses) + out + Multiset.ofList C'.stage.held =
        Multiset.ofList (q .responses) + Multiset.ofList C.stage.held := by
  cases hm with
  | skip he hi =>
    refine ⟨0, 0, .checks rfl (started_of_idle hi) rfl rfl, (add_zero _).symm, ?_⟩
    rw [hi.held_eq, add_zero]
    rfl
  | look => exact ⟨0, 0, .checks rfl rfl rfl rfl, (add_zero _).symm, by rw [add_zero]; rfl⟩
  | checkInterrupted hf => exact hf.elim
  | @checkPass d q b memory buffer rest hcons hp =>
    refine ⟨0, 0, .checks rfl rfl rfl rfl, by simp, ?_⟩
    simp only [ClientStage.held, Function.update_self, hcons, coe_cons, Multiset.coe_nil,
      add_zero]
    exact add_comm _ _
  | @checkTake d q b memory buffer rest stage hcons hp hi =>
    rw [hcons, List.forall_mem_cons] at hq
    rw [MqClient.checkedPid_eq (Nat.le_of_succ_le hq.1)] at hp
    refine ⟨0, {buffer}, .takes rfl (started_of_idle hi) hp rfl rfl, by simp, ?_⟩
    rw [Function.update_self, hcons, coe_cons, hi.held_eq, add_comm (Multiset.ofList rest)]
    rfl
  | @checkLose d q b memory buffer stage hi =>
    refine ⟨0, {buffer}, .checks rfl (started_of_idle hi) rfl rfl, (add_zero _).symm, ?_⟩
    rw [hi.held_eq]
    simp [ClientStage.held]
  | submit =>
    refine ⟨_, 0, .submits rfl rfl rfl rfl, ?_, ?_⟩
    · rw [Function.update_self, coe_concat]
    · simp [ClientStage.held]
  | awaitInterrupted hf => exact hf.elim
  | awaitShort hcons hl =>
    rw [hcons, List.forall_mem_cons] at hq
    exact absurd hq.1 (Nat.not_le.mpr hl)
  | @awaitPass d q req res buffer rest hcons hl hp =>
    refine ⟨0, 0, .waits rfl rfl rfl rfl, by simp, ?_⟩
    simp only [ClientStage.held, Function.update_self, hcons, coe_cons, Multiset.coe_nil,
      add_zero]
    exact add_comm _ _
  | @awaitTake d q req res buffer rest stage hcons hl hp hi =>
    refine ⟨0, {buffer}, .completes rfl (started_of_idle hi) hp rfl rfl, by simp, ?_⟩
    rw [Function.update_self, hcons, coe_cons, hi.held_eq, add_comm (Multiset.ofList rest)]
    rfl
  | @awaitLose d q req res buffer =>
    refine ⟨0, {buffer}, .waits rfl rfl rfl rfl, (add_zero _).symm, ?_⟩
    simp [ClientStage.held]

/-- The messages in the request queue, or taken from there for put-back. -/
def requests [Fintype ι] (s : Staged ι κ σ) : Multiset Message :=
  Multiset.ofList (s.queues .requests) + ∑ i, Multiset.ofList (s.receivers i).stage.held

/-- The messages in the response queue, or taken from there for put-back. -/
def responses [Fintype κ] (s : Staged ι κ σ) : Multiset Message :=
  Multiset.ofList (s.queues .responses) + ∑ k, Multiset.ofList (s.clients k).stage.held

/-- The messages with a given process id. -/
def tagged (p : Pid) (messages : Multiset Message) : Multiset Message :=
  messages.filter fun buffer => receivedPid buffer = p

@[simp] theorem tagged_zero (p : Pid) : tagged p 0 = 0 := Multiset.filter_zero _

theorem tagged_add (p : Pid) (xs ys : Multiset Message) :
    tagged p (xs + ys) = tagged p xs + tagged p ys := Multiset.filter_add _ xs ys

theorem tagged_eq_self {p : Pid} {xs : Multiset Message}
    (hp : ∀ buffer ∈ xs, receivedPid buffer = p) : tagged p xs = xs :=
  Multiset.filter_eq_self.mpr hp

theorem tagged_singleton {p : Pid} {buffer : Message} (hp : receivedPid buffer = p) :
    tagged p {buffer} = {buffer} :=
  tagged_eq_self fun _ hb => Multiset.mem_singleton.mp hb ▸ hp

theorem tagged_eq_zero {p p' : Pid} {xs : Multiset Message} (hne : p' ≠ p)
    (hp : ∀ buffer ∈ xs, receivedPid buffer = p') : tagged p xs = 0 :=
  Multiset.filter_eq_nil.mpr fun buffer hb he => hne ((hp buffer hb).symm.trans he)

section

variable [Fintype ι] [Fintype κ] {h : ι → Handlers σ} {pid : ι → Pid} {receiverId : κ → Pid}
  {s : Staged ι κ σ} {q : Queues}

theorem receiver_flow [DecidableEq ι] {i : ι} {R : Receiver σ}
    (hm : ReceiverMove (h i) False (pid i) (s.receivers i) s.queues R q) :
    ∃ out put, ReceiverEffect (pid i) (s.receivers i) R out put ∧
      requests { s with queues := q, receivers := Function.update s.receivers i R } + out =
        requests s ∧
      responses { s with queues := q, receivers := Function.update s.receivers i R } =
        responses s + put := by
  obtain ⟨out, put, he, hout, hput⟩ := receiver_effect hm
  refine ⟨out, put, he, ?_, ?_⟩
  · have hsum := conserved_update (F := fun _ (R : Receiver σ) => Multiset.ofList R.stage.held)
      hout rfl
    rw [requests, requests, hsum]
    ac_rfl
  · rw [responses, responses, hput]
    ac_rfl

theorem client_flow [DecidableEq κ] {k : κ} {C : Client}
    (hm : ClientMove False (receiverId k) (s.clients k) s.queues C q)
    (hq : ∀ buffer ∈ s.queues .responses, 5 ≤ buffer.length) :
    ∃ put out, ClientEffect (receiverId k) (s.clients k) C put out ∧
      requests { s with queues := q, clients := Function.update s.clients k C } =
        requests s + put ∧
      responses { s with queues := q, clients := Function.update s.clients k C } + out =
        responses s := by
  obtain ⟨put, out, he, hput, hout⟩ := client_effect hm hq
  refine ⟨put, out, he, ?_, ?_⟩
  · rw [requests, requests, hput]
    ac_rfl
  · have hsum := conserved_update (F := fun _ (C : Client) => Multiset.ofList C.stage.held)
      hout rfl
    rw [responses, responses, hsum]
    ac_rfl

end

end VpTesting.InFlight

import Mathlib.Algebra.Order.Group.Multiset
import VpTesting.MqStages

namespace VpTesting.RequestRouting

open VpTesting.MessageQueue VpTesting.Types VpTesting.Processes VpTesting.HandlerCalls
  VpTesting.MqTestingCommunication VpTesting.MqTestingClient VpTesting.MqProcesses
  VpTesting.ReceiverStages VpTesting.ClientStages VpTesting.MqStages

variable {ι κ σ : Type}

/-- A request with the tag it is sent under. -/
abbrev Letter := Pid × Request

def letter (buffer : Message) : Letter := (receivedPid buffer, receivedRequest buffer)

theorem letter_requestMessage (receiverId : Pid) (req : FittingRequest) :
    letter (requestMessage receiverId req.request) = (receiverId, req.request) := by
  rw [letter, receivedPid_requestMessage, receivedRequest_requestMessage]

def letters (messages : List Message) : Multiset Letter := messages.map letter

theorem letters_append (xs ys : List Message) : letters (xs ++ ys) = letters xs + letters ys := by
  rw [letters, List.map_append, ← Multiset.coe_add]
  rfl

theorem letters_cons (buffer : Message) (xs : List Message) :
    letters (buffer :: xs) = letters [buffer] + letters xs :=
  letters_append [buffer] xs

/-- The message that a receiver has taken for another one and is about to put back. -/
def held : MqProgram ReceiverReturn → List Message
  | .mqSend (some ⟨.requests, _, _⟩) buffer _ => [buffer]
  | _ => []

theorem held_program (pid : Pid) (stage : ReceiverStage) :
    held (stage.program pid) = stage.held := by
  cases stage <;> rfl

/-- Every request sent so far is in the queue, held by one receiver for put-back, or was
delivered once, to a receiver that it is addressed to. -/
def Routed [Fintype ι] [Fintype κ] (pid : ι → Pid) (receiverId : κ → Pid) (t : System ι κ σ) :
    Prop :=
  ∃ delivered : ι → List Letter,
    (∀ i, (t.receivers i).data.handled.map Prod.fst = (delivered i).map Prod.snd) ∧
    (∀ i, ∀ l ∈ delivered i, l.1 = 0 ∨ l.1 = pid i) ∧
    ∑ k, Multiset.ofList ((t.clients k).data.sent.map fun req => (receiverId k, req)) =
      Multiset.ofList ((t.queues .requests).map letter) +
        ∑ i, Multiset.ofList ((held (t.receivers i).program).map letter ++ delivered i)

/-- A message that is neither too short nor too long for a request. -/
def Framed (buffer : Message) : Prop := 5 ≤ buffer.length ∧ buffer.length ≤ mqMaxLength

theorem framed_requestMessage (receiverId : Pid) (req : FittingRequest) :
    Framed (requestMessage receiverId req.request) := by
  rw [Framed, FittingRequest.request, requestMessage_of, length_message]
  exact ⟨Nat.le_add_right 5 _, req.fits⟩

/-- Those of the messages a receiver took that were for it. -/
def delivered (pid : Pid) (taken : List Message) : List Message :=
  taken.filter fun buffer => decide (Addressed pid buffer)

section

variable {pid : Pid} {buffer : Message} {taken : List Message}

theorem delivered_append_addressed (ha : Addressed pid buffer) :
    delivered pid (taken ++ [buffer]) = delivered pid taken ++ [buffer] := by
  rw [delivered, List.filter_append, List.filter_singleton, decide_eq_true ha]
  rfl

theorem delivered_append_foreign (ha : ¬Addressed pid buffer) :
    delivered pid (taken ++ [buffer]) = delivered pid taken := by
  rw [delivered, List.filter_append, List.filter_singleton, decide_eq_false ha]
  exact List.append_nil _

end

/-- The requests a receiver has, for put-back or for good. -/
def kept (pid : Pid) (R : Receiver σ) : Multiset Letter :=
  letters R.stage.held + letters (delivered pid R.data.taken)

section

variable {h : Handlers σ} {mayFail : Prop} {pid : Pid} {R R' : Receiver σ} {q q' : Queues}

theorem framed_receiverMove (hm : ReceiverMove h mayFail pid R q R' q')
    (hq : ∀ buffer ∈ q .requests, Framed buffer) (hR : ∀ buffer ∈ R.stage.held, Framed buffer) :
    (∀ buffer ∈ q' .requests, Framed buffer) ∧ ∀ buffer ∈ R'.stage.held, Framed buffer := by
  cases hm with
  | announce | respond =>
    simp only [ne_eq, reduceCtorEq, not_false_eq_true, Function.update_of_ne]
    exact ⟨hq, List.forall_mem_nil _⟩
  | interrupted | suppress => exact ⟨hq, List.forall_mem_nil _⟩
  | drop hcons | accept g hcons =>
    rw [hcons, List.forall_mem_cons] at hq
    rw [Function.update_self]
    exact ⟨hq.2, List.forall_mem_nil _⟩
  | pass hcons =>
    rw [hcons, List.forall_mem_cons] at hq
    rw [Function.update_self]
    exact ⟨hq.2, List.forall_mem_singleton.mpr hq.1⟩
  | putBack =>
    rw [Function.update_self]
    exact ⟨List.forall_mem_append.mpr ⟨hq, hR⟩, List.forall_mem_nil _⟩
  | discard => exact ⟨hq, List.forall_mem_nil _⟩

/-- A receiver's step moves a request between the queue and the receiver, or no request. -/
theorem kept_receiverMove (hm : ReceiverMove h mayFail pid R q R' q')
    (hq : ∀ buffer ∈ q .requests, Framed buffer) (hR : ∀ buffer ∈ R.stage.held, Framed buffer) :
    letters (q' .requests) + kept pid R' = letters (q .requests) + kept pid R := by
  cases hm with
  | announce | respond =>
    rw [Function.update_of_ne (by decide)]
    rfl
  | interrupted | suppress => rfl
  | drop hcons hl =>
    rw [hcons, List.forall_mem_cons] at hq
    exact absurd hq.1.1 (Nat.not_le.mpr hl)
  | @accept d q prior buffer rest g hcons hl ha =>
    rw [Function.update_self, hcons, letters_cons, kept, kept]
    have hd : letters (delivered pid (d.taken ++ [buffer])) =
        letters (delivered pid d.taken) + letters [buffer] := by
      rw [delivered_append_addressed ha, letters_append]
    calc
      _ = letters rest + (letters [] + letters (delivered pid (d.taken ++ [buffer]))) := rfl
      _ = letters [buffer] + letters rest +
          (letters [] + letters (delivered pid d.taken)) := by
        rw [hd]
        ac_rfl
  | @pass d q prior buffer rest hcons hl ha =>
    rw [Function.update_self, hcons, letters_cons, kept, kept, delivered_append_foreign ha]
    have hnil : letters [] = 0 := rfl
    simp only [ReceiverStage.held, hnil]
    ac_rfl
  | @putBack d q prior buffer =>
    rw [Function.update_self, letters_append, kept, kept]
    have hnil : letters [] = 0 := rfl
    simp only [ReceiverStage.held, hnil, zero_add]
    ac_rfl
  | discard hl =>
    exact absurd (hR _ (List.mem_singleton_self _)).2 (Nat.not_le.mpr hl)

/-- The requests handled are those delivered, in their order. -/
def HandledDelivered (pid : Pid) (R : Receiver σ) : Prop :=
  R.data.handled.map Prod.fst = (delivered pid R.data.taken).map receivedRequest

theorem handledDelivered_receiverMove (hm : ReceiverMove h mayFail pid R q R' q')
    (hq : ∀ buffer ∈ q .requests, Framed buffer) (hd : HandledDelivered pid R) :
    HandledDelivered pid R' := by
  cases hm with
  | announce | interrupted | putBack | discard | respond | suppress => exact hd
  | drop hcons hl =>
    rw [hcons, List.forall_mem_cons] at hq
    exact absurd hq.1.1 (Nat.not_le.mpr hl)
  | pass hcons hl ha =>
    rw [HandledDelivered, delivered_append_foreign ha]
    exact hd
  | @accept d q prior buffer rest g hcons hl ha =>
    calc
      _ = d.handled.map Prod.fst ++ [receivedRequest buffer] := List.map_append
      _ = (delivered pid d.taken).map receivedRequest ++ [receivedRequest buffer] :=
        congrArg (· ++ [receivedRequest buffer]) hd
      _ = (delivered pid (d.taken ++ [buffer])).map receivedRequest := by
        rw [delivered_append_addressed ha, List.map_append, List.map_singleton]

end

/-- The requests a client sent, with its tag. -/
def posted (receiverId : Pid) (C : Client) : Multiset Letter :=
  C.data.sent.map fun req => (receiverId, req)

section

variable {mayFail : Prop} {receiverId : Pid} {C C' : Client} {q q' : Queues}

theorem framed_clientMove (hm : ClientMove mayFail receiverId C q C' q')
    (hq : ∀ buffer ∈ q .requests, Framed buffer) : ∀ buffer ∈ q' .requests, Framed buffer := by
  cases hm with
  | skip | look | checkInterrupted | checkLose | awaitInterrupted | awaitLose => exact hq
  | checkPass | checkTake | awaitShort | awaitPass | awaitTake =>
    rw [Function.update_of_ne (by decide)]
    exact hq
  | @submit d q req =>
    rw [Function.update_self]
    exact List.forall_mem_append.mpr
      ⟨hq, List.forall_mem_singleton.mpr (framed_requestMessage receiverId req)⟩

/-- What a client's step adds to the queue is what it adds to the requests sent. -/
theorem posted_clientMove (hm : ClientMove mayFail receiverId C q C' q') :
    posted receiverId C' + letters (q .requests) =
      posted receiverId C + letters (q' .requests) := by
  cases hm with
  | skip | look | checkInterrupted | checkLose | awaitInterrupted | awaitLose => rfl
  | checkPass | checkTake | awaitShort | awaitPass | awaitTake =>
    rw [Function.update_of_ne (by decide)]
    rfl
  | @submit d q req res memory =>
    have hp : posted receiverId ⟨{ d with sent := d.sent ++ [req.request] },
        .awaiting req.request res⟩ =
        posted receiverId ⟨d, .submitting req res memory⟩ +
          letters [requestMessage receiverId req.request] := by
      rw [posted, List.map_append, ← Multiset.coe_add, letters, List.map_singleton,
        List.map_singleton, letter_requestMessage]
      rfl
    rw [hp, Function.update_self, letters_append]
    ac_rfl

end

section

variable [Fintype ι] [Fintype κ] {pid : ι → Pid} {receiverId : κ → Pid}

structure Invariant (pid : ι → Pid) (receiverId : κ → Pid) (s : Staged ι κ σ) : Prop where
  queue : ∀ buffer ∈ s.queues .requests, Framed buffer
  held : ∀ i, ∀ buffer ∈ (s.receivers i).stage.held, Framed buffer
  handled : ∀ i, HandledDelivered (pid i) (s.receivers i)
  conserved : ∑ k, posted (receiverId k) (s.clients k) =
    letters (s.queues .requests) + ∑ i, kept (pid i) (s.receivers i)

theorem invariant_of_initial {s : Staged ι κ σ} (hs : Initial s) : Invariant pid receiverId s := by
  have hR (i : ι) : (s.receivers i).stage.held = [] ∧ (s.receivers i).data.taken = [] ∧
      (s.receivers i).data.handled = [] := by
    obtain ⟨v, hv⟩ := hs.receivers i
    rw [hv]
    exact ⟨rfl, rfl, rfl⟩
  have hC (k : κ) : posted (receiverId k) (s.clients k) = 0 := by
    obtain ⟨started, stage, -, hk⟩ := hs.clients k
    rw [hk]
    rfl
  have hK (i : ι) : kept (pid i) (s.receivers i) = 0 := by
    rw [kept, (hR i).1, (hR i).2.1]
    rfl
  constructor
  · rw [hs.queues]
    exact List.forall_mem_nil _
  · intro i
    rw [(hR i).1]
    exact List.forall_mem_nil _
  · intro i
    rw [HandledDelivered, (hR i).2.1, (hR i).2.2]
    rfl
  · rw [Finset.sum_eq_zero fun k _ => hC k, Finset.sum_eq_zero fun i _ => hK i, hs.queues]
    rfl

theorem routed_of_invariant {s : Staged ι κ σ} (hs : Invariant pid receiverId s) :
    Routed pid receiverId (s.toSystem pid receiverId) := by
  refine ⟨fun i => (delivered (pid i) (s.receivers i).data.taken).map letter, ?_, ?_, ?_⟩
  · intro i
    rw [List.map_map]
    exact hs.handled i
  · intro i l hl
    obtain ⟨buffer, hb, rfl⟩ := List.mem_map.mp hl
    exact of_decide_eq_true (List.mem_filter.mp hb).2
  · refine hs.conserved.trans (congrArg _ (Finset.sum_congr rfl fun i _ => ?_))
    rw [← Multiset.coe_add]
    exact congrArg (fun xs => letters xs + _) (held_program (pid i) (s.receivers i).stage).symm

variable [DecidableEq ι] [DecidableEq κ] {h : ι → Handlers σ} {mayFail : Prop}

theorem invariant_of_move {s s' : Staged ι κ σ} (hm : Move h mayFail pid receiverId s s')
    (hs : Invariant pid receiverId s) : Invariant pid receiverId s' := by
  cases hm with
  | @receiver i R q hm =>
    have hf := framed_receiverMove hm hs.queue (hs.held i)
    constructor
    · exact hf.1
    · exact (Function.forall_update_iff s.receivers
        fun _ R => ∀ buffer ∈ R.stage.held, Framed buffer).mpr ⟨hf.2, fun j _ => hs.held j⟩
    · exact (Function.forall_update_iff s.receivers fun j R => HandledDelivered (pid j) R).mpr
        ⟨handledDelivered_receiverMove hm hs.queue (hs.handled i), fun j _ => hs.handled j⟩
    · exact conserved_update (F := fun j R => kept (pid j) R)
        (kept_receiverMove hm hs.queue (hs.held i)) hs.conserved
  | @client k C q hm =>
    constructor
    · exact framed_clientMove hm hs.queue
    · exact hs.held
    · exact hs.handled
    · exact total_update (F := fun j C => posted (receiverId j) C) (posted_clientMove hm)
        hs.conserved

/-- No request is lost, duplicated, changed or delivered to another receiver. -/
theorem routed (h : ι → Handlers σ) (mayFail : Prop) {t t' : System ι κ σ}
    (ht : Fresh pid receiverId t) (hr : Reachable h mayFail t t') :
    Routed pid receiverId t' := by
  obtain ⟨s, rfl, hs⟩ := reachable_induction ht hr (fun _ => invariant_of_initial)
    fun _ _ => invariant_of_move
  exact routed_of_invariant hs

end

/-- Two receivers, and for each a client that is about to send its request. -/
def submitting : Staged (Fin 2) (Fin 2) Unit :=
  starting (fun _ => ()) fun _ => .submitting killRequest {} fun _ => 0

/-- A receiver has announced itself, and waits for requests. -/
def listening (i : Fin 2) : Staged (Fin 2) (Fin 2) Unit :=
  { submitting with
    queues := Function.update submitting.queues .responses [readyMessage 1]
    receivers := Function.update submitting.receivers i
      ⟨{ state := (), put := [readyMessage 1] }, .polling {}⟩ }

/-- A client has sent its request to the other receiver. -/
def submitted (i k : Fin 2) : Staged (Fin 2) (Fin 2) Unit :=
  { listening i with
    queues := Function.update (listening i).queues .requests
      [requestMessage 2 killRequest.request]
    clients := Function.update (listening i).clients k
      ⟨{ sent := [killRequest.request] }, .awaiting killRequest.request {}⟩ }

/-- What the receiver has put and taken. -/
def tookForeign : ReceiverData Unit where
  state := ()
  put := [readyMessage 1]
  taken := [requestMessage 2 killRequest.request]

/-- The receiver holds the request to put it back. -/
def passing (i k : Fin 2) : Staged (Fin 2) (Fin 2) Unit :=
  { submitted i k with
    queues := Function.update (submitted i k).queues .requests []
    receivers := Function.update (submitted i k).receivers i
      ⟨tookForeign, .holding {} (requestMessage 2 killRequest.request)⟩ }

/-- It has put the request back. -/
def passed (i k : Fin 2) : Staged (Fin 2) (Fin 2) Unit :=
  { passing i k with
    queues := Function.update (passing i k).queues .requests
      [requestMessage 2 killRequest.request]
    receivers := Function.update (passing i k).receivers i ⟨tookForeign, .polling {}⟩ }

theorem fresh_submitting : Fresh pids pids (submitting.toSystem pids pids) :=
  fresh_starting fun _ => ⟨true, .request rfl killRequest {} _⟩

theorem move_listening : Move (fun _ => silent Unit) False pids pids submitting (listening 0) :=
  .receiver 0 (.announce (by decide))

theorem move_submitted :
    Move (fun _ => silent Unit) False pids pids (listening 0) (submitted 0 1) :=
  .client 1 (.submit (by decide))

theorem move_passing :
    Move (fun _ => silent Unit) False pids pids (submitted 0 1) (passing 0 1) :=
  move_receiver (i := 0) rfl (.pass rfl (by decide) (by decide))

theorem move_passed :
    Move (fun _ => silent Unit) False pids pids (passing 0 1) (passed 0 1) :=
  move_receiver (i := 0) rfl (.putBack (by decide) (by decide))

/-- The first receiver puts the request for the second one back, which then handles it. -/
theorem routed_passed :
    ∃ t : System (Fin 2) (Fin 2) Unit,
      (t.receivers 1).data.handled.map Prod.fst = [killRequest.request] ∧ Routed pids pids t := by
  have h₁ : Relation.ReflTransGen (Move (fun _ => silent Unit) False pids pids) submitting _ :=
    (((Relation.ReflTransGen.single move_listening).tail move_submitted).tail
      move_passing).tail move_passed
  have h₂ := h₁.tail (move_receiver (i := 1) rfl (.announce (by decide)))
  have h₃ := h₂.tail (move_receiver (i := 1) rfl
    (.accept Indeterminate.zero rfl (by decide) (by decide)))
  refine ⟨_, ?_, routed (fun _ => silent Unit) False fresh_submitting (reachable_of_moves h₃)⟩
  rfl

end VpTesting.RequestRouting

import Mathlib.Algebra.Order.BigOperators.Group.Finset
import Mathlib.Algebra.Order.Group.Multiset
import VpTesting.MqStages
import VpTesting.ReadyWaiting

namespace VpTesting.ResponseRouting

open VpTesting.MessageQueue VpTesting.Types VpTesting.Processes VpTesting.HandlerCalls
  VpTesting.MqTestingCommunication VpTesting.MqTestingClient VpTesting.MqProcesses
  VpTesting.ReceiverStages VpTesting.ClientStages VpTesting.MqStages VpTesting.ReadyWaiting

variable {ι κ σ : Type}

theorem coe_cons (buffer : Message) (rest : List Message) :
    Multiset.ofList (buffer :: rest) = {buffer} + Multiset.ofList rest := by
  rw [Multiset.singleton_add, Multiset.cons_coe]

theorem coe_concat (xs : List Message) (buffer : Message) :
    Multiset.ofList (xs ++ [buffer]) = Multiset.ofList xs + {buffer} := by
  rw [← Multiset.coe_add, Multiset.coe_singleton]

/-- The message that a client has taken for another one and is about to put back. -/
def held : MqProgram ClientReturn → List Message
  | .mqSend (some ⟨.responses, _, _⟩) buffer _ => [buffer]
  | _ => []

theorem held_program (receiverId : Pid) (stage : ClientStage) :
    held (stage.program receiverId) = stage.held := by
  cases stage <;> rfl

/-- The message that a call has made a client accept: `check_for_ready` returns true for it, or
`send_request` takes it for its answer. -/
def acceptedBy : Stepped Queue UInt8 ClientReturn → List Message
  | ⟨.done (.checked r), _, .received _ buffer⟩ => if r.result then [buffer] else []
  | ⟨.done (.awaited (some _) _ _ _), _, .received _ buffer⟩ =>
    if 5 ≤ buffer.length then [buffer] else []
  | _ => []

/-- What a client accepts from one state to the next. If it takes a message, its call did not
fail. -/
def acceptedIn (q : Queues) (P P' : ClientProcess) : List Message :=
  if P'.data.taken = P.data.taken then []
  else ((P.program.step mqAttr false q).map acceptedBy).getD []

/-- A state of a run, with what each client has accepted in the run until then. -/
structure Recorded (ι κ σ : Type) where
  system : System ι κ σ
  accepted : κ → List Message

def Recorded.next (r : Recorded ι κ σ) (t : System ι κ σ) : Recorded ι κ σ where
  system := t
  accepted k := r.accepted k ++ acceptedIn r.system.queues (r.system.clients k) (t.clients k)

/-- The states of a run behind a recorded one. -/
def recorded (r : Recorded ι κ σ) : List (System ι κ σ) → List (Recorded ι κ σ)
  | [] => []
  | t :: run => r.next t :: recorded (r.next t) run

/-- Those of the messages that are for the client. -/
def meantFor (receiverId : Pid) (messages : List Message) : List Message :=
  messages.filter fun buffer => decide (receivedPid buffer = receiverId)

/-- Every message put in the response queue is still there, or held by one client for put-back,
or was accepted once, by a client that it is meant for. -/
def Retained [Fintype ι] [Fintype κ] (receiverId : κ → Pid) (r : Recorded ι κ σ) : Prop :=
  ∑ i, Multiset.ofList (r.system.receivers i).data.put =
    Multiset.ofList (r.system.queues .responses) +
      ∑ k, Multiset.ofList
        (held (r.system.clients k).program ++ meantFor (receiverId k) (r.accepted k))

/-- In the step a client makes the call that is to put a message back. -/
def PutsBack (t t' : System ι κ σ) : Prop :=
  ∃ k, held (t.clients k).program ≠ [] ∧ held (t'.clients k).program = []

/-- In the step a client takes a message from its receiver, which is not the announcement, and
no `send_request` of it returns: `check_for_ready` has taken it. -/
def Discards (receiverId : κ → Pid) (t t' : System ι κ σ) : Prop :=
  ∃ k buffer, (t'.clients k).data.taken = (t.clients k).data.taken ++ [buffer] ∧
    receivedPid buffer = receiverId k ∧ isAnnouncement (receiverId k) buffer = false ∧
      (t'.clients k).data.completed = (t.clients k).data.completed

section

variable {h : Handlers σ} {mayFail : Prop} {pid : Pid} {R R' : Receiver σ} {q q' : Queues}

theorem framed_receiverMove (hm : ReceiverMove h mayFail pid R q R' q')
    (hq : ∀ buffer ∈ q .responses, 5 ≤ buffer.length) :
    ∀ buffer ∈ q' .responses, 5 ≤ buffer.length := by
  cases hm with
  | announce =>
    rw [Function.update_self]
    refine List.forall_mem_append.mpr ⟨hq, List.forall_mem_singleton.mpr ?_⟩
    rw [length_readyMessage]
    decide
  | respond =>
    rw [Function.update_self]
    exact List.forall_mem_append.mpr
      ⟨hq, List.forall_mem_singleton.mpr (le_length_responseMessage pid _)⟩
  | interrupted | discard | suppress => exact hq
  | drop | pass | accept | putBack =>
    rw [Function.update_of_ne (by decide)]
    exact hq

/-- What a receiver's step adds to the queue is what it adds to the messages put there. -/
theorem put_receiverMove (hm : ReceiverMove h mayFail pid R q R' q') :
    Multiset.ofList R'.data.put + Multiset.ofList (q .responses) =
      Multiset.ofList R.data.put + Multiset.ofList (q' .responses) := by
  cases hm with
  | announce | respond =>
    rw [Function.update_self, ← Multiset.coe_add, ← Multiset.coe_add]
    ac_rfl
  | interrupted | discard | suppress => rfl
  | drop | pass | putBack => rw [Function.update_of_ne (by decide)]
  | accept =>
    rw [Function.update_of_ne (by decide)]
    rfl

end

section

variable {receiverId : Pid} {buffer : Message} {messages : List Message}

theorem meantFor_append_own (hp : receivedPid buffer = receiverId) :
    meantFor receiverId (messages ++ [buffer]) = meantFor receiverId messages ++ [buffer] := by
  rw [meantFor, List.filter_append, List.filter_singleton, decide_eq_true hp]
  rfl

end

/-- The messages a client has, for put-back or for good. -/
def kept (receiverId : Pid) (C : Client) (accepted : List Message) : Multiset Message :=
  Multiset.ofList (C.stage.held ++ meantFor receiverId accepted)

theorem kept_eq (receiverId : Pid) (C : Client) (accepted : List Message) :
    kept receiverId C accepted =
      Multiset.ofList C.stage.held + Multiset.ofList (meantFor receiverId accepted) :=
  (Multiset.coe_add _ _).symm

theorem kept_accepted {receiverId : Pid} {buffer : Message} (C : Client) (accepted : List Message)
    (hp : receivedPid buffer = receiverId) :
    kept receiverId C (accepted ++ [buffer]) = kept receiverId C accepted + {buffer} := by
  rw [kept_eq, kept_eq, meantFor_append_own hp, coe_concat, add_assoc]

section

variable {mayFail : Prop} {receiverId : Pid} {C C' : Client} {q q' : Queues}

theorem framed_clientMove (hm : ClientMove mayFail receiverId C q C' q')
    (hq : ∀ buffer ∈ q .responses, 5 ≤ buffer.length) :
    ∀ buffer ∈ q' .responses, 5 ≤ buffer.length := by
  cases hm with
  | skip | look | checkInterrupted | checkLose | awaitInterrupted | awaitLose => exact hq
  | submit =>
    rw [Function.update_of_ne (by decide)]
    exact hq
  | checkPass hcons | checkTake hcons | awaitShort hcons | awaitPass hcons | awaitTake hcons =>
    rw [hcons, List.forall_mem_cons] at hq
    rw [Function.update_self]
    exact hq.2

end

section

variable {q : Queues} {P P' : ClientProcess} {buffer : Message} {rest : List Message}

theorem acceptedIn_of_taken_eq (ht : P'.data.taken = P.data.taken) : acceptedIn q P P' = [] :=
  if_pos ht

/-- A client that receives a message accepts it or not by how it goes on. -/
theorem acceptedIn_of_received {next : Except Errno Message → MqProgram ClientReturn}
    (hp : P.program =
      .mqReceive (some { queue := .responses, access := .readOnly }) mqMaxLength next)
    (ht : P'.data.taken = P.data.taken ++ [buffer]) (hq : q .responses = buffer :: rest) :
    acceptedIn q P P' = acceptedBy ⟨next (.ok buffer), Function.update q .responses rest,
      .received .responses buffer⟩ := by
  have hn : P'.data.taken ≠ P.data.taken := by simp [ht]
  have hs : P.program.step mqAttr false q = some ⟨next (.ok buffer),
      Function.update q .responses rest, .received .responses buffer⟩ := by
    rw [hp]
    exact Program.step_mqReceive_cons (by rfl) (Nat.le_refl mqMaxLength) hq
  rw [acceptedIn, if_neg hn, hs]
  rfl

end

/-- What a step of a client does to the messages in the response queue and to those it has. -/
inductive Effect (receiverId : Pid) (C : Client) (q : Queues) (C' : Client) (q' : Queues) : Prop
  | quiet (h0 : C.stage.held = []) (h1 : C'.stage.held = [])
    (ht : C'.data.taken = C.data.taken) (hq : q' .responses = q .responses)
  | pass (buffer : Message) (h0 : C.stage.held = []) (h1 : C'.stage.held = [buffer])
    (ht : C'.data.taken = C.data.taken ++ [buffer]) (hp : receivedPid buffer ≠ receiverId)
    (hq : q .responses = buffer :: q' .responses)
    (ha : acceptedIn q (C.toProcess receiverId) (C'.toProcess receiverId) = [])
  | lose (buffer : Message) (h0 : C.stage.held = [buffer]) (h1 : C'.stage.held = [])
    (ht : C'.data.taken = C.data.taken) (hq : q' .responses = q .responses)
  | accept (buffer : Message) (h0 : C.stage.held = []) (h1 : C'.stage.held = [])
    (ht : C'.data.taken = C.data.taken ++ [buffer]) (hp : receivedPid buffer = receiverId)
    (hq : q .responses = buffer :: q' .responses)
    (ha : acceptedIn q (C.toProcess receiverId) (C'.toProcess receiverId) = [buffer])
    (hc : isAnnouncement receiverId buffer = true ∨ C'.data.completed ≠ C.data.completed)
  | discard (buffer : Message) (h0 : C.stage.held = []) (h1 : C'.stage.held = [])
    (ht : C'.data.taken = C.data.taken ++ [buffer]) (hp : receivedPid buffer = receiverId)
    (hq : q .responses = buffer :: q' .responses)
    (ha : acceptedIn q (C.toProcess receiverId) (C'.toProcess receiverId) = [])
    (hn : isAnnouncement receiverId buffer = false) (hc : C'.data.completed = C.data.completed)

section

variable {mayFail : Prop} {receiverId : Pid} {C C' : Client} {q q' : Queues}

theorem effect_of_clientMove (hm : ClientMove mayFail receiverId C q C' q')
    (hframed : ∀ buffer ∈ q .responses, 5 ≤ buffer.length) :
    Effect receiverId C q C' q' := by
  cases hm with
  | skip he hi | checkInterrupted hf hi | awaitInterrupted hf hi =>
    exact .quiet rfl hi.held_eq rfl rfl
  | look => exact .quiet rfl rfl rfl rfl
  | submit => exact .quiet rfl rfl rfl (Function.update_of_ne (by decide) _ _)
  | checkLose hi => exact .lose _ rfl hi.held_eq rfl rfl
  | awaitLose => exact .lose _ rfl rfl rfl rfl
  | checkPass hq hp =>
    rw [hq, List.forall_mem_cons] at hframed
    have hp' := MqClient.checkedPid_eq (Nat.le_of_succ_le hframed.1) ▸ hp
    refine .pass _ rfl rfl rfl hp' (by rw [hq, Function.update_self]) ?_
    rw [acceptedIn_of_received rfl rfl hq, MqClient.readyArrived_foreign hp]
    rfl
  | @checkTake d q started memory buffer rest stage hq hp hi =>
    rw [hq, List.forall_mem_cons] at hframed
    have hl := Nat.le_of_succ_le hframed.1
    have hp' : receivedPid buffer = receiverId := MqClient.checkedPid_eq hl ▸ hp
    have hready := isAnnouncement_own memory hl hp'
    have hqueue : q .responses = buffer :: Function.update q .responses rest .responses := by
      rw [hq, Function.update_self]
    have ha : acceptedIn q (Client.toProcess receiverId ⟨d, .looking started memory⟩)
        (Client.toProcess receiverId ⟨{ d with taken := d.taken ++ [buffer] }, stage⟩) = _ :=
      acceptedIn_of_received rfl rfl hq
    rw [MqClient.readyArrived_own hp] at ha
    cases hr : isAnnouncement receiverId buffer with
    | true =>
      have hd : decide (IsReady (ReadyCheck.filled memory buffer)) = true := hready.symm.trans hr
      exact .accept _ rfl hi.held_eq rfl hp' hqueue (ha.trans (if_pos hd)) (Or.inl hr)
    | false =>
      have hd : ¬decide (IsReady (ReadyCheck.filled memory buffer)) = true :=
        Bool.eq_false_iff.mp (hready.symm.trans hr)
      exact .discard _ rfl hi.held_eq rfl hp' hqueue (ha.trans (if_neg hd)) hr rfl
  | awaitShort hq hl =>
    rw [hq, List.forall_mem_cons] at hframed
    exact absurd hframed.1 (Nat.not_le.mpr hl)
  | awaitPass hq hl hp =>
    refine .pass _ rfl rfl rfl hp (by rw [hq, Function.update_self]) ?_
    rw [acceptedIn_of_received rfl rfl hq, MqClient.responseArrived_foreign hl hp]
    rfl
  | awaitTake hq hl hp hi =>
    refine .accept _ rfl hi.held_eq rfl hp (by rw [hq, Function.update_self]) ?_
      (Or.inr (by simp))
    rw [acceptedIn_of_received rfl rfl hq, MqClient.responseArrived_own hl hp]
    exact if_pos hl

end

def PutsBackFrom (C C' : Client) : Prop := C.stage.held ≠ [] ∧ C'.stage.held = []

def DiscardsFrom (receiverId : Pid) (C C' : Client) : Prop :=
  ∃ buffer, C'.data.taken = C.data.taken ++ [buffer] ∧ receivedPid buffer = receiverId ∧
    isAnnouncement receiverId buffer = false ∧ C'.data.completed = C.data.completed

section

variable {receiverId : Pid} {C C' : Client} {q q' : Queues} {buffer : Message}

theorem not_putsBackFrom (h0 : C.stage.held = []) : ¬PutsBackFrom C C' := fun hp => hp.1 h0

theorem not_discardsFrom_of_taken_eq (ht : C'.data.taken = C.data.taken) :
    ¬DiscardsFrom receiverId C C' := by
  rintro ⟨buffer, hb, -⟩
  simp [ht] at hb

theorem discardsFrom_iff (ht : C'.data.taken = C.data.taken ++ [buffer]) :
    DiscardsFrom receiverId C C' ↔ receivedPid buffer = receiverId ∧
      isAnnouncement receiverId buffer = false ∧ C'.data.completed = C.data.completed := by
  constructor
  · rintro ⟨b, hb, hd⟩
    obtain rfl : buffer = b := by simpa using ht.symm.trans hb
    exact hd
  · exact fun hd => ⟨buffer, ht, hd⟩

/-- A step moves messages between the queue, the client, and what it has accepted. A message is
gone when the client makes the call that is to put it back, or discards it, and only then. -/
theorem gone_of_effect (he : Effect receiverId C q C' q') (accepted : List Message) :
    ∃ gone : Multiset Message,
      Multiset.ofList (q' .responses) + gone + kept receiverId C'
          (accepted ++ acceptedIn q (C.toProcess receiverId) (C'.toProcess receiverId)) =
        Multiset.ofList (q .responses) + kept receiverId C accepted ∧
      (gone = 0 ↔ ¬PutsBackFrom C C' ∧ ¬DiscardsFrom receiverId C C') := by
  cases he with
  | quiet h0 h1 ht hq =>
    refine ⟨0, ?_, iff_of_true rfl ⟨not_putsBackFrom h0, not_discardsFrom_of_taken_eq ht⟩⟩
    rw [acceptedIn_of_taken_eq ht, List.append_nil, add_zero, hq, kept_eq, kept_eq, h0, h1]
  | pass buffer h0 h1 ht hp hq ha =>
    refine ⟨0, ?_, iff_of_true rfl ⟨not_putsBackFrom h0, ?_⟩⟩
    · rw [ha, List.append_nil, add_zero, hq, coe_cons, kept_eq, kept_eq, h0, h1,
        Multiset.coe_singleton, Multiset.coe_nil]
      ac_rfl
    · rw [discardsFrom_iff ht]
      exact fun hd => hp hd.1
  | lose buffer h0 h1 ht hq =>
    refine ⟨{buffer}, ?_, iff_of_false (Multiset.singleton_ne_zero buffer) fun hn =>
      hn.1 ⟨h0 ▸ List.cons_ne_nil buffer [], h1⟩⟩
    rw [acceptedIn_of_taken_eq ht, List.append_nil, hq, kept_eq, kept_eq, h0, h1,
      Multiset.coe_singleton, Multiset.coe_nil, zero_add]
    ac_rfl
  | accept buffer h0 h1 ht hp hq ha hc =>
    refine ⟨0, ?_, iff_of_true rfl ⟨not_putsBackFrom h0, ?_⟩⟩
    · rw [ha, kept_accepted C' accepted hp, add_zero, hq, coe_cons, kept_eq, kept_eq, h0, h1]
      ac_rfl
    · rw [discardsFrom_iff ht]
      rintro ⟨-, hn, hcompleted⟩
      obtain hc | hc := hc
      · exact absurd (hn.symm.trans hc) Bool.false_ne_true
      · exact hc hcompleted
  | discard buffer h0 h1 ht hp hq ha hn hc =>
    refine ⟨{buffer}, ?_, iff_of_false (Multiset.singleton_ne_zero buffer) fun hall =>
      hall.2 ((discardsFrom_iff ht).mpr ⟨hp, hn, hc⟩)⟩
    rw [ha, List.append_nil, hq, coe_cons, kept_eq, kept_eq, h0, h1]
    ac_rfl

end

section

variable [Fintype ι] [Fintype κ] {pid : ι → Pid} {receiverId : κ → Pid} {s s' : Staged ι κ σ}
  {accepted : κ → List Message}

theorem retained_toSystem : Retained receiverId ⟨s.toSystem pid receiverId, accepted⟩ ↔
    ∑ i, Multiset.ofList (s.receivers i).data.put =
      Multiset.ofList (s.queues .responses) +
        ∑ k, kept (receiverId k) (s.clients k) (accepted k) := by
  have hkept (k : κ) :
      Multiset.ofList (held ((s.clients k).toProcess (receiverId k)).program ++
        meantFor (receiverId k) (accepted k)) = kept (receiverId k) (s.clients k) (accepted k) :=
    congrArg (fun xs => Multiset.ofList (xs ++ _)) (held_program (receiverId k) _)
  rw [← Finset.sum_congr rfl fun k _ => hkept k]
  rfl

omit [Fintype ι] [Fintype κ] in
theorem putsBack_toSystem : PutsBack (s.toSystem pid receiverId) (s'.toSystem pid receiverId) ↔
    ∃ k, PutsBackFrom (s.clients k) (s'.clients k) := by
  refine exists_congr fun k => ?_
  rw [PutsBackFrom, ← held_program (receiverId k), ← held_program (receiverId k)]
  rfl

omit [Fintype ι] [Fintype κ] in
theorem discards_toSystem :
    Discards receiverId (s.toSystem pid receiverId) (s'.toSystem pid receiverId) ↔
      ∃ k, DiscardsFrom (receiverId k) (s.clients k) (s'.clients k) := Iff.rfl

variable [DecidableEq ι] [DecidableEq κ] {h : ι → Handlers σ} {mayFail : Prop}

omit [Fintype ι] [Fintype κ] in
theorem framed_of_move (hm : Move h mayFail pid receiverId s s')
    (hframed : ∀ buffer ∈ s.queues .responses, 5 ≤ buffer.length) :
    ∀ buffer ∈ s'.queues .responses, 5 ≤ buffer.length := by
  cases hm with
  | receiver i hm => exact framed_receiverMove hm hframed
  | client k hm => exact framed_clientMove hm hframed

omit [Fintype ι] [Fintype κ] [DecidableEq ι] in
theorem exists_client_iff {F : κ → Client → Client → Prop} {k : κ} {C : Client}
    (hF : ∀ j C, ¬F j C C) :
    (∃ j, F j (s.clients j) (Function.update s.clients k C j)) ↔ F k (s.clients k) C := by
  rw [Function.exists_update_iff s.clients fun j C => F j (s.clients j) C]
  exact or_iff_left fun ⟨j, _, hj⟩ => hF j _ hj

omit [DecidableEq ι] in
/-- With a step of a client nothing is lost unless it puts a message back or discards one. -/
theorem retained_client_iff {k : κ} {C : Client} {q : Queues}
    (he : Effect (receiverId k) (s.clients k) s.queues C q)
    (hr : Retained receiverId ⟨s.toSystem pid receiverId, accepted⟩) :
    let s' : Staged ι κ σ := { s with queues := q, clients := Function.update s.clients k C }
    Retained receiverId (Recorded.next ⟨s.toSystem pid receiverId, accepted⟩
        (s'.toSystem pid receiverId)) ↔
      ¬PutsBack (s.toSystem pid receiverId) (s'.toSystem pid receiverId) ∧
        ¬Discards receiverId (s.toSystem pid receiverId) (s'.toSystem pid receiverId) := by
  intro s'
  obtain ⟨gone, hgone, hiff⟩ := gone_of_effect he (accepted k)
  let r : Recorded ι κ σ :=
    Recorded.next ⟨s.toSystem pid receiverId, accepted⟩ (s'.toSystem pid receiverId)
  let new := accepted k ++ acceptedIn s.queues ((s.clients k).toProcess (receiverId k))
    (C.toProcess (receiverId k))
  have hpair : Function.update (fun j => (s.clients j, accepted j)) k (C, new) =
      fun j => (s'.clients j, r.accepted j) := by
    funext j
    by_cases hj : j = k
    · subst hj
      simp [r, Recorded.next, Staged.toSystem, s', new]
    · have hsame : acceptedIn s.queues ((s.toSystem pid receiverId).clients j)
          ((s'.toSystem pid receiverId).clients j) = [] :=
        acceptedIn_of_taken_eq (by simp [Staged.toSystem, s', hj])
      have hr : r.accepted j = accepted j :=
        (congrArg (accepted j ++ ·) hsame).trans (List.append_nil _)
      rw [Function.update_of_ne hj, hr]
      simp [s', hj]
  have hsum := conserved_update (F := fun j (x : Client × List Message) =>
    kept (receiverId j) x.1 x.2) (g := fun j => (s.clients j, accepted j)) (i := k)
    (x := (C, new)) hgone (retained_toSystem.mp hr)
  rw [hpair] at hsum
  have hretained : Retained receiverId r ↔ gone = 0 :=
    calc
      Retained receiverId r ↔ ∑ i, Multiset.ofList (s.receivers i).data.put =
          Multiset.ofList (q .responses) +
            ∑ j, kept (receiverId j) (s'.clients j) (r.accepted j) := retained_toSystem
      _ ↔ gone = 0 := by
        rw [hsum, add_left_inj]
        exact add_eq_left
  rw [putsBack_toSystem, discards_toSystem]
  refine hretained.trans (hiff.trans (and_congr (not_congr ?_) (not_congr ?_)))
  · exact (exists_client_iff (F := fun _ => PutsBackFrom) fun _ C hp => hp.1 hp.2).symm
  · exact (exists_client_iff (F := fun j => DiscardsFrom (receiverId j)) fun _ C =>
      not_discardsFrom_of_taken_eq rfl).symm

theorem retained_of_move (hm : Move h mayFail pid receiverId s s')
    (hframed : ∀ buffer ∈ s.queues .responses, 5 ≤ buffer.length)
    (hr : Retained receiverId ⟨s.toSystem pid receiverId, accepted⟩) :
    Retained receiverId (Recorded.next ⟨s.toSystem pid receiverId, accepted⟩
        (s'.toSystem pid receiverId)) ↔
      ¬PutsBack (s.toSystem pid receiverId) (s'.toSystem pid receiverId) ∧
        ¬Discards receiverId (s.toSystem pid receiverId) (s'.toSystem pid receiverId) := by
  cases hm with
  | @receiver i R q hm =>
    refine iff_of_true ?_ ⟨?_, ?_⟩
    · have hsum := total_update (F := fun _ (R : Receiver σ) => Multiset.ofList R.data.put)
        (put_receiverMove hm) (retained_toSystem.mp hr)
      have hsame : accepted = fun k => accepted k ++
          acceptedIn s.queues ((s.clients k).toProcess (receiverId k))
            ((s.clients k).toProcess (receiverId k)) :=
        funext fun k => by rw [acceptedIn_of_taken_eq rfl, List.append_nil]
      rw [hsame] at hsum
      exact retained_toSystem.mpr hsum
    · exact fun ⟨k, hne, he⟩ => hne he
    · exact fun ⟨k, hd⟩ => not_discardsFrom_of_taken_eq rfl hd
  | client k hm => exact retained_client_iff (effect_of_clientMove hm hframed) hr

end

section

variable {r : Recorded ι κ σ} {run : List (System ι κ σ)}
  {step : System ι κ σ → System ι κ σ → Prop}

theorem map_recorded : (r :: recorded r run).map Recorded.system = r.system :: run := by
  induction run generalizing r with
  | nil => rfl
  | cons t run ih => exact congrArg (r.system :: ·) (ih (r := r.next t))

theorem isChain_recorded_iff :
    List.IsChain (fun r r' => step r.system r'.system) (r :: recorded r run) ↔
      List.IsChain step (r.system :: run) := by
  rw [← map_recorded, List.isChain_map]

theorem isChain_recorded (hr : List.IsChain step (r.system :: run)) :
    List.IsChain (fun r r' => step r.system r'.system ∧ r' = r.next r'.system)
      (r :: recorded r run) := by
  induction run generalizing r with
  | nil => exact .singleton r
  | cons t run ih =>
    obtain ⟨ht, hr⟩ := List.isChain_cons_cons.mp hr
    exact .cons_cons ⟨ht, rfl⟩ (ih (r := r.next t) hr)

end

section

variable [Fintype ι] [Fintype κ] [DecidableEq ι] [DecidableEq κ] {h : ι → Handlers σ}
  {mayFail : Prop} {pid : ι → Pid} {receiverId : κ → Pid}

/-- A state of a run up to which nothing was lost. -/
structure Lossless (pid : ι → Pid) (receiverId : κ → Pid) (r : Recorded ι κ σ) : Prop where
  staged : ∃ s : Staged ι κ σ, r.system = s.toSystem pid receiverId ∧
    ∀ buffer ∈ s.queues .responses, 5 ≤ buffer.length
  retained : Retained receiverId r

omit [DecidableEq ι] [DecidableEq κ] in
theorem lossless_of_initial {s : Staged ι κ σ} (hs : Initial s) :
    Lossless pid receiverId ⟨s.toSystem pid receiverId, fun _ => []⟩ := by
  have hR (i : ι) : Multiset.ofList (s.receivers i).data.put = 0 := by
    obtain ⟨v, hv⟩ := hs.receivers i
    rw [hv]
    rfl
  have hC (k : κ) : kept (receiverId k) (s.clients k) [] = 0 := by
    obtain ⟨started, stage, hi, hk⟩ := hs.clients k
    rw [hk, kept_eq, hi.held_eq]
    rfl
  refine ⟨⟨s, rfl, ?_⟩, retained_toSystem.mpr ?_⟩
  · rw [hs.queues]
    exact List.forall_mem_nil _
  · rw [Finset.sum_eq_zero fun i _ => hR i, Finset.sum_eq_zero fun k _ => hC k, hs.queues]
    rfl

/-- The step lemma: what was retained still is unless the step puts back or discards. -/
theorem Lossless.step {r : Recorded ι κ σ} {t : System ι κ σ} (hr : Lossless pid receiverId r)
    (ht : Step h mayFail r.system t) :
    (∃ s : Staged ι κ σ, t = s.toSystem pid receiverId ∧
      ∀ buffer ∈ s.queues .responses, 5 ≤ buffer.length) ∧
      (Retained receiverId (r.next t) ↔
        ¬PutsBack r.system t ∧ ¬Discards receiverId r.system t) := by
  obtain ⟨system, accepted⟩ := r
  obtain ⟨⟨s, rfl, hframed⟩, hretained⟩ := hr
  obtain ⟨s', rfl, hm⟩ := move_of_step ht
  exact ⟨⟨s', rfl, framed_of_move hm hframed⟩, retained_of_move hm hframed hretained⟩

/-- The run lemma, from any state up to which nothing was lost. -/
theorem Lossless.run_iff {r : Recorded ι κ σ} {run : List (System ι κ σ)}
    (hs : Lossless pid receiverId r) (hr : List.IsChain (Step h mayFail) (r.system :: run)) :
    (∀ r' ∈ r :: recorded r run, Retained receiverId r') ↔
      List.IsChain (fun t t' => ¬PutsBack t t' ∧ ¬Discards receiverId t t') (r.system :: run) := by
  rw [← isChain_recorded_iff]
  refine forall_iff_isChain (fun r hr => hr.retained) ?_ ?_ hs (isChain_recorded hr)
  · rintro r r' ⟨ht, he⟩ hgood hr
    obtain ⟨hstaged, hretained⟩ := hr.step ht
    exact ⟨hstaged, he ▸ hretained.mpr hgood⟩
  · rintro r r' ⟨ht, he⟩ hbad hr
    rw [he]
    exact fun hretained => hbad ((hr.step ht).2.mp hretained)

/-- No message is lost in a run if and only if no client tries to put one back, and none throws
one away that is for it. -/
theorem retained_iff (h : ι → Handlers σ) (mayFail : Prop) {t : System ι κ σ}
    {run : List (System ι κ σ)} (ht : Fresh pid receiverId t)
    (hr : List.IsChain (Step h mayFail) (t :: run)) :
    (∀ r ∈ ⟨t, fun _ => []⟩ :: recorded ⟨t, fun _ => []⟩ run, Retained receiverId r) ↔
      List.IsChain (fun t t' => ¬PutsBack t t' ∧ ¬Discards receiverId t t') (t :: run) := by
  obtain ⟨s, rfl, hs⟩ := initial_of_fresh ht
  exact (lossless_of_initial hs).run_iff hr

end

/-- After the announcement of the first receiver, a client has found that there is a message. -/
def looked (k : Fin 2) : Staged (Fin 2) (Fin 2) Unit :=
  { announced with
    clients := Function.update announced.clients k ⟨{}, .looking false fun _ => 0⟩ }

/-- The client has taken the announcement, and goes on at a stage. -/
def taken (k : Fin 2) (stage : ClientStage) : Staged (Fin 2) (Fin 2) Unit :=
  { looked k with
    queues := Function.update announced.queues .responses []
    clients := Function.update (looked k).clients k ⟨{ taken := [readyMessage 1] }, stage⟩ }

/-- The client holds the announcement to put it back. -/
def holding (k : Fin 2) : Staged (Fin 2) (Fin 2) Unit :=
  taken k (.checkHolding false (fun _ => 0) (readyMessage 1))

/-- It has tried to put the announcement back. -/
def dropped (k : Fin 2) : Staged (Fin 2) (Fin 2) Unit :=
  { holding k with
    clients := Function.update (holding k).clients k
      ⟨{ taken := [readyMessage 1], lost := [readyMessage 1] }, .checking false fun _ => 0⟩ }

theorem move_announced : Move (fun _ => silent Unit) False pids pids pairs announced :=
  .receiver 0 (.announce (by decide))

theorem move_looked (k : Fin 2) :
    Move (fun _ => silent Unit) False pids pids announced (looked k) :=
  move_client (k := k) rfl (.look (List.cons_ne_nil _ _))

theorem move_taken : Move (fun _ => silent Unit) False pids pids (looked 0)
    (taken 0 (.checking true fun _ => 0)) :=
  move_client (k := 0) rfl (clientMove_readyMessage rfl (.check _))

theorem move_holding : Move (fun _ => silent Unit) False pids pids (looked 1) (holding 1) :=
  move_client (k := 1) rfl (.checkPass rfl (by decide))

theorem move_dropped : Move (fun _ => silent Unit) False pids pids (holding 1)
    (dropped 1) :=
  move_client (k := 1) rfl (.checkLose (.check fun _ => 0))

/-- The first client takes the announcement that is for it. -/
theorem retained_iff_taken :
    let t : System (Fin 2) (Fin 2) Unit := pairs.toSystem pids pids
    let run : List (System (Fin 2) (Fin 2) Unit) :=
      [announced.toSystem pids pids, (looked 0).toSystem pids pids,
        (taken 0 (.checking true fun _ => 0)).toSystem pids pids]
    (∀ r ∈ ⟨t, fun _ => []⟩ :: recorded ⟨t, fun _ => []⟩ run, Retained pids r) ↔
      List.IsChain (fun t t' => ¬PutsBack t t' ∧ ¬Discards pids t t') (t :: run) :=
  retained_iff (fun _ => silent Unit) False fresh_pairs
    (.cons_cons (step_of_move move_announced) (.cons_cons (step_of_move (move_looked 0))
      (.cons_cons (step_of_move move_taken) (.singleton _))))

/-- The second client takes the announcement of the first receiver, and loses it. -/
theorem exists_not_retained :
    Fresh pids pids (pairs.toSystem pids pids) ∧ Function.Injective pids ∧
      ∃ run, List.IsChain (Step (fun _ => silent Unit) False) (pairs.toSystem pids pids :: run) ∧
        ¬∀ r ∈ ⟨pairs.toSystem pids pids, fun _ => []⟩ ::
          recorded ⟨pairs.toSystem pids pids, fun _ => []⟩ run, Retained pids r := by
  have hr : List.IsChain (Step (fun _ => silent Unit) False) _ :=
    .cons_cons (step_of_move move_announced) (.cons_cons (step_of_move (move_looked 1))
      (.cons_cons (step_of_move move_holding) (.cons_cons (step_of_move move_dropped)
        (.singleton _))))
  refine ⟨fresh_pairs, by decide, _, hr, ?_⟩
  rw [(lossless_of_initial initial_pairs).run_iff hr]
  simp only [List.isChain_cons_cons]
  exact fun hn => hn.2.2.2.1.1 ⟨1, List.cons_ne_nil _ _, rfl⟩

end VpTesting.ResponseRouting

import VpTesting.MqStages

namespace VpTesting.MqAnswers

open VpTesting.MessageQueue VpTesting.Types VpTesting.HandlerCalls VpTesting.HandleRequest
  VpTesting.MqTestingCommunication VpTesting.MqTestingClient VpTesting.MqProcesses
  VpTesting.ReceiverStages VpTesting.ClientStages VpTesting.MqStages

variable {ι κ σ : Type}

/-- The receiver is about to take the next message out of the request queue. -/
def Polls : MqProgram ReceiverReturn → Prop
  | .mqReceive _ _ _ => True
  | _ => False

/-- The messages put in the response queue after the announcement are one for each request
handled, with the status of the response to it. -/
def Answered (d : ReceiverData σ) : Prop :=
  List.Forall₂ (fun x message => message.getD 4 0 = x.2.responseStatus) d.handled d.put.tail

/-- The test of `send_response`. -/
def Fits (res : Response) : Prop := 4 + res.dataLength.toNat + 1 ≤ mqMaxLength

instance (res : Response) : Decidable (Fits res) := inferInstanceAs (Decidable (_ ≤ _))

theorem length_responseMessage {res : Response}
    (hl : (res.data.getD []).length = res.dataLength.toNat) (pid : Pid) :
    (responseMessage pid res).length = 4 + res.dataLength.toNat + 1 := by
  rw [responseMessage, List.take_of_length_le hl.le, List.length_append, length_pidToBytes,
    List.length_cons, hl]
  exact (Nat.add_assoc _ _ _).symm

theorem getD_responseMessage (pid : Pid) (res : Response) :
    (responseMessage pid res).getD 4 0 = res.responseStatus := by
  simp [responseMessage, List.getD]

/-- The messages for those requests whose response fits. -/
def replies (pid : Pid) (handled : List (Request × Response)) : List Message :=
  (handled.filter fun x => decide (Fits x.2)).map fun x => responseMessage pid x.2

theorem replies_append (pid : Pid) (xs ys : List (Request × Response)) :
    replies pid (xs ++ ys) = replies pid xs ++ replies pid ys := by
  rw [replies, List.filter_append, List.map_append]
  rfl

theorem replies_fits (pid : Pid) {x : Request × Response} (hf : Fits x.2) :
    replies pid [x] = [responseMessage pid x.2] := by
  rw [replies, List.filter_singleton, decide_eq_true hf]
  rfl

theorem replies_not_fits (pid : Pid) {x : Request × Response} (hf : ¬Fits x.2) :
    replies pid [x] = [] := by
  rw [replies, List.filter_singleton, decide_eq_false hf]
  rfl

theorem forall₂_replies_iff (pid : Pid) (handled : List (Request × Response)) :
    List.Forall₂ (fun x (message : Message) => message.getD 4 0 = x.2.responseStatus) handled
      (replies pid handled) ↔ ∀ x ∈ handled, Fits x.2 := by
  constructor
  · intro hf x hx
    have hl := hf.length_eq
    rw [replies, List.length_map] at hl
    exact of_decide_eq_true (List.length_filter_eq_length_iff.mp hl.symm x hx)
  · intro hf
    have hfilter : handled.filter (fun x => decide (Fits x.2)) = handled :=
      List.filter_eq_self.mpr fun x hx => decide_eq_true (hf x hx)
    rw [replies, hfilter, List.forall₂_map_right_iff, List.forall₂_same]
    exact fun x _ => getD_responseMessage pid x.2

/-- What was put in the response queue follows from the requests handled. -/
structure Replied (pid : Pid) (R : Receiver σ) : Prop where
  sized : ∀ x ∈ R.data.handled, (x.2.data.getD []).length = x.2.dataLength.toNat
  replied : match R.stage with
    | .announcing => R.data.handled = [] ∧ R.data.put = []
    | .polling _ | .holding _ _ => R.data.put = readyMessage pid :: replies pid R.data.handled
    | .responding req res => ∃ handled, R.data.handled = handled ++ [(req, res)] ∧
        R.data.put = readyMessage pid :: replies pid handled

theorem replied_receiverMove {h : Handlers σ} {mayFail : Prop} {pid : Pid} {R R' : Receiver σ}
    {q q' : Queues} (hm : ReceiverMove h mayFail pid R q R' q') (hr : Replied pid R) :
    Replied pid R' := by
  obtain ⟨hsized, hr⟩ := hr
  cases hm with
  | announce =>
    obtain ⟨hh, hp⟩ := hr
    dsimp only at hh hp
    refine ⟨hsized, ?_⟩
    simp only [hh, hp]
    rfl
  | interrupted | drop | pass | putBack | discard => exact ⟨hsized, hr⟩
  | @accept d q prior buffer rest g hcons hl ha =>
    refine ⟨?_, d.handled, rfl, hr⟩
    refine List.forall_mem_append.mpr ⟨hsized, List.forall_mem_singleton.mpr ?_⟩
    exact length_data_handleRequest h g (receivedRequest buffer) d.state
  | @respond d q req res hl =>
    obtain ⟨handled, hh, hp⟩ := hr
    have hs := hsized (req, res) (hh ▸ List.mem_append_right _ (List.mem_singleton_self _))
    rw [length_responseMessage hs] at hl
    have hf : Fits (req, res).2 := hl
    dsimp only at hh hp
    refine ⟨hsized, ?_⟩
    simp only [hh, hp, replies_append, replies_fits pid hf, List.cons_append]
  | @suppress d q req res hl =>
    obtain ⟨handled, hh, hp⟩ := hr
    have hs := hsized (req, res) (hh ▸ List.mem_append_right _ (List.mem_singleton_self _))
    rw [length_responseMessage hs] at hl
    have hf : ¬Fits (req, res).2 := Nat.not_le.mpr hl
    dsimp only at hh hp
    refine ⟨hsized, ?_⟩
    simp only [hh, hp, replies_append, replies_not_fits pid hf, List.append_nil]

theorem answered_iff_of_replied {pid : Pid} {R : Receiver σ} (hr : Replied pid R)
    (hp : Polls (R.stage.program pid)) :
    Answered R.data ↔ ∀ x ∈ R.data.handled, Fits x.2 := by
  obtain ⟨d, stage⟩ := R
  cases stage with
  | polling prior =>
    have hput : d.put = readyMessage pid :: replies pid d.handled := hr.replied
    rw [Answered, hput, List.tail_cons]
    exact forall₂_replies_iff pid d.handled
  | announcing | holding | responding => exact hp.elim

section

variable [DecidableEq ι] [DecidableEq κ] {pid : ι → Pid} {receiverId : κ → Pid}

/-- When a receiver comes to take the next request, every request so far has been answered
if and only if no response was too long for one message. -/
theorem answered_iff (h : ι → Handlers σ) (mayFail : Prop) {t t' : System ι κ σ}
    (ht : Fresh pid receiverId t) (hr : Reachable h mayFail t t') (i : ι)
    (hp : Polls (t'.receivers i).program) :
    Answered (t'.receivers i).data ↔ ∀ x ∈ (t'.receivers i).data.handled, Fits x.2 := by
  have hinv : ∃ s : Staged ι κ σ, t' = s.toSystem pid receiverId ∧
      ∀ i, Replied (pid i) (s.receivers i) := by
    refine reachable_induction ht hr ?_ ?_
    · intro s hs i
      obtain ⟨v, hv⟩ := hs.receivers i
      rw [hv]
      exact ⟨List.forall_mem_nil _, rfl, rfl⟩
    · intro s s' hm hs
      cases hm with
      | receiver i hm =>
        exact (Function.forall_update_iff s.receivers fun j R => Replied (pid j) R).mpr
          ⟨replied_receiverMove hm (hs i), fun j _ => hs j⟩
      | client => exact hs
  obtain ⟨s, rfl, hs⟩ := hinv
  exact answered_iff_of_replied (hs i) hp

end

theorem answered_iff_killRequest :
    ∃ t : System (Fin 2) (Fin 2) Unit, (t.receivers 0).data.handled ≠ [] ∧
      (Answered (t.receivers 0).data ↔ ∀ x ∈ (t.receivers 0).data.handled, Fits x.2) := by
  obtain ⟨s, hs, ⟨prior, hprior⟩, hh, -⟩ := exists_killAnswered
  have hp : Polls ((s.toSystem pids pids).receivers 0).program := by
    have hprogram : ((s.toSystem pids pids).receivers 0).program =
        (s.receivers 0).stage.program (pids 0) := rfl
    rw [hprogram, hprior]
    exact trivial
  exact ⟨_, hh, answered_iff (fun _ => silent Unit) False fresh_pairs (reachable_of_moves hs) 0 hp⟩

/-- An event with 251 bytes of additional data. -/
def longEvent : Event where
  event := EventType.vpError.toByte
  additionData := some (List.replicate 251 0)
  additionalDataLength := 251

def longEventHandlers : Handlers Unit
  | .handleContinue _, v => ⟨.ok, longEvent, v⟩
  | c, v => silent Unit c v

def continueRequest : FittingRequest := .withoutData .«continue»

theorem length_longResponse (pid : Pid) (d : ReceiverData Unit) :
    mqMaxLength < (responseMessage pid
      (ReceiverProcess.response longEventHandlers Indeterminate.zero
        (receivedRequest (requestMessage pid continueRequest.request)) d)).length := by
  have hl := length_data_handleRequest longEventHandlers Indeterminate.zero
    continueRequest.request d.state
  rw [receivedRequest_requestMessage, ReceiverProcess.response, length_responseMessage hl,
    Subsingleton.elim d.state ()]
  decide

theorem exists_not_answered :
    ∃ t, Reachable (fun _ => longEventHandlers) False (pairs.toSystem pids pids) t ∧
      Polls (t.receivers 0).program ∧ ¬Answered (t.receivers 0).data := by
  have hi : ClientStage.Idle true (.submitting continueRequest {} fun _ => 0) :=
    .request rfl continueRequest {} _
  have h₀ : Relation.ReflTransGen (Move (fun _ => longEventHandlers) False pids pids) pairs _ :=
    moves_announcement (i := 0) (k := 0) rfl rfl rfl rfl hi
  have h₁ := h₀.tail (move_client (k := 0) rfl (.submit (by decide)))
  have h₂ := h₁.tail (move_receiver (i := 0) rfl
    (.accept Indeterminate.zero rfl (by decide) (by decide)))
  have h₃ := h₂.tail (move_receiver (i := 0) rfl (.suppress (length_longResponse 1 _)))
  exact ⟨_, reachable_of_moves h₃, trivial, by rintro ⟨⟩⟩

end VpTesting.MqAnswers

import VpTesting.MqProcesses

namespace VpTesting.ClientStages

open VpTesting.ByteMemory VpTesting.MessageQueue VpTesting.Types VpTesting.Processes
  VpTesting.MqTestingCommunication VpTesting.MqTestingClient VpTesting.MqProcesses

/-- The calls a client may be about to make. -/
inductive ClientStage
  | checking (started : Bool) (memory : Nat → UInt8)
  | looking (started : Bool) (memory : Nat → UInt8)
  | checkHolding (started : Bool) (memory : Nat → UInt8) (buffer : Message)
  | submitting (req : FittingRequest) (res : Response) (memory : Nat → UInt8)
  | awaiting (req : Request) (res : Response)
  | awaitHolding (req : Request) (res : Response) (buffer : Message)

/-- The program of a client at a stage. -/
def ClientStage.program (receiverId : Pid) : ClientStage → MqProgram ClientReturn
  | checking started memory => ClientProcess.checking (MqClient.opened receiverId started) memory
  | looking started memory =>
    .mqReceive (some { queue := .responses, access := .readOnly }) mqMaxLength fun r =>
      ((MqClient.opened receiverId started).readyArrived memory r).bind fun r => .done (.checked r)
  | checkHolding started memory buffer =>
    .mqSend (some { queue := .responses, access := .readOnly }) buffer fun _ =>
      .done (.checked ⟨false, MqClient.opened receiverId started,
        (({ memory } : Buffer UInt8).copy 0 buffer).written,
        List.range 4 ++ List.range buffer.length, []⟩)
  | submitting req res memory =>
    ClientProcess.submitting (MqClient.opened receiverId true) req.request res memory
  | awaiting req res => ClientProcess.awaiting (MqClient.opened receiverId true) req res
  | awaitHolding req res buffer =>
    .mqSend (some { queue := .responses, access := .readOnly }) buffer fun _ =>
      .done (.awaited none (MqClient.opened receiverId true) req res)

/-- The message that is to be put back. -/
def ClientStage.held : ClientStage → List Message
  | checkHolding _ _ buffer | awaitHolding _ _ buffer => [buffer]
  | checking _ _ | looking _ _ | submitting _ _ _ | awaiting _ _ => []

theorem program_submitting (receiverId : Pid) (req : FittingRequest) (res : Response)
    (memory : Nat → UInt8) :
    (ClientStage.submitting req res memory).program receiverId =
      .mqSend (some { queue := .requests, access := .writeOnly })
        (requestMessage receiverId req.request) fun sent =>
          .done (.submitted sent (MqClient.opened receiverId true) req.request res) := by
  have hs := slice_requestBuffer receiverId req.request memory (by simp [FittingRequest.request])
  rw [← hs]
  rfl

/-- The stages between two calls of the client object. -/
inductive ClientStage.Idle (started : Bool) : ClientStage → Prop
  | check (memory : Nat → UInt8) : Idle started (.checking started memory)
  | request (hs : started = true) (req : FittingRequest) (res : Response)
    (memory : Nat → UInt8) : Idle started (.submitting req res memory)

theorem ClientStage.Idle.held_eq {started : Bool} {stage : ClientStage}
    (hi : ClientStage.Idle started stage) : stage.held = [] := by
  cases hi with
  | check | request => rfl

structure Client where
  data : ClientData
  stage : ClientStage

def Client.toProcess (receiverId : Pid) (C : Client) : ClientProcess :=
  ⟨C.data, C.stage.program receiverId⟩

/-- The steps of a client. -/
inductive ClientMove (mayFail : Prop) (receiverId : Pid) :
    Client → Queues → Client → Queues → Prop
  | skip {d q started memory stage} (he : mayFail ∨ q .responses = [])
    (hi : ClientStage.Idle started stage) :
    ClientMove mayFail receiverId ⟨d, .checking started memory⟩ q ⟨d, stage⟩ q
  | look {d q started memory} (hne : q .responses ≠ []) :
    ClientMove mayFail receiverId ⟨d, .checking started memory⟩ q ⟨d, .looking started memory⟩ q
  | checkInterrupted {d q started memory stage} (hf : mayFail)
    (hi : ClientStage.Idle started stage) :
    ClientMove mayFail receiverId ⟨d, .looking started memory⟩ q ⟨d, stage⟩ q
  | checkPass {d q started memory buffer rest} (hq : q .responses = buffer :: rest)
    (hp : MqClient.checkedPid memory buffer ≠ receiverId) :
    ClientMove mayFail receiverId ⟨d, .looking started memory⟩ q
      ⟨{ d with taken := d.taken ++ [buffer] }, .checkHolding started memory buffer⟩
      (Function.update q .responses rest)
  | checkTake {d q started memory buffer rest stage} (hq : q .responses = buffer :: rest)
    (hp : MqClient.checkedPid memory buffer = receiverId)
    (hi : ClientStage.Idle (started || decide (IsReady
      ((({ memory } : Buffer UInt8).copy 0 buffer).copy buffer.length [0]))) stage) :
    ClientMove mayFail receiverId ⟨d, .looking started memory⟩ q
      ⟨{ d with taken := d.taken ++ [buffer] }, stage⟩ (Function.update q .responses rest)
  | checkLose {d q started memory buffer stage} (hi : ClientStage.Idle started stage) :
    ClientMove mayFail receiverId ⟨d, .checkHolding started memory buffer⟩ q
      ⟨{ d with lost := d.lost ++ [buffer] }, stage⟩ q
  | submit {d q req res memory} (hroom : (q .requests).length < mqMaxMsg) :
    ClientMove mayFail receiverId ⟨d, .submitting req res memory⟩ q
      ⟨{ d with sent := d.sent ++ [req.request] }, .awaiting req.request res⟩
      (Function.update q .requests (q .requests ++ [requestMessage receiverId req.request]))
  | awaitInterrupted {d q req res stage} (hf : mayFail) (hi : ClientStage.Idle true stage) :
    ClientMove mayFail receiverId ⟨d, .awaiting req res⟩ q
      ⟨{ d with completed := d.completed ++ [(req, ⟨false, res⟩)] }, stage⟩ q
  | awaitShort {d q req res buffer rest stage} (hq : q .responses = buffer :: rest)
    (hl : buffer.length < 5) (hi : ClientStage.Idle true stage) :
    ClientMove mayFail receiverId ⟨d, .awaiting req res⟩ q
      ⟨{ d with taken := d.taken ++ [buffer],
                completed := d.completed ++ [(req, ⟨false, res⟩)] }, stage⟩
      (Function.update q .responses rest)
  | awaitPass {d q req res buffer rest} (hq : q .responses = buffer :: rest)
    (hl : 5 ≤ buffer.length) (hp : receivedPid buffer ≠ receiverId) :
    ClientMove mayFail receiverId ⟨d, .awaiting req res⟩ q
      ⟨{ d with taken := d.taken ++ [buffer] }, .awaitHolding req res buffer⟩
      (Function.update q .responses rest)
  | awaitTake {d q req res buffer rest stage} (hq : q .responses = buffer :: rest)
    (hl : 5 ≤ buffer.length) (hp : receivedPid buffer = receiverId)
    (hi : ClientStage.Idle true stage) :
    ClientMove mayFail receiverId ⟨d, .awaiting req res⟩ q
      ⟨{ d with taken := d.taken ++ [buffer],
                completed := d.completed ++ [(req, storeResponse res buffer)] }, stage⟩
      (Function.update q .responses rest)
  | awaitLose {d q req res buffer} :
    ClientMove mayFail receiverId ⟨d, .awaitHolding req res buffer⟩ q
      ⟨{ d with lost := d.lost ++ [buffer] }, .awaiting req res⟩ q

section

variable {mayFail : Prop} {receiverId : Pid} {d : ClientData} {q q' : Queues} {P : ClientProcess}
  {started : Bool} {memory : Nat → UInt8} {req : Request} {res : Response} {buffer : Message}

theorem chooses_stage (hP : ClientProcess.Chooses d (MqClient.opened receiverId started) P) :
    ∃ stage, ClientStage.Idle started stage ∧ P = Client.toProcess receiverId ⟨d, stage⟩ := by
  cases hP with
  | check memory => exact ⟨_, .check memory, rfl⟩
  | request hs req res memory =>
    obtain rfl : started = true := hs
    exact ⟨_, .request rfl req res memory, rfl⟩

theorem chooses_of_idle {stage : ClientStage}
    (hi : ClientStage.Idle started stage) :
    ClientProcess.Chooses d (MqClient.opened receiverId started)
      (Client.toProcess receiverId ⟨d, stage⟩) := by
  cases hi with
  | check memory => exact .check memory
  | request hs req res memory =>
    subst hs
    exact .request rfl req res memory

theorem checking_step
    (hP : ClientProcess.behaviour.Step mqAttr mayFail
      ⟨d, (ClientStage.checking started memory).program receiverId⟩ q P q') :
    ∃ C, P = Client.toProcess receiverId C ∧
      ClientMove mayFail receiverId ⟨d, .checking started memory⟩ q C q' := by
  cases hP with
  | @call fails _ _ _ _ hf hr hs =>
    cases hr
    cases fails with
    | true =>
      cases hs.done with
      | checked hP =>
        obtain ⟨stage, hi, rfl⟩ := chooses_stage hP
        exact ⟨_, rfl, .skip (Or.inl (hf rfl)) hi⟩
    | false =>
      cases hq : q .responses with
      | nil =>
        simp only [Bool.false_eq_true, if_false, MqClient.opened, Option.map_some, hq] at hs
        cases hs.done with
        | checked hP =>
          obtain ⟨stage, hi, rfl⟩ := chooses_stage hP
          exact ⟨_, rfl, .skip (Or.inr hq) hi⟩
      | cons buffer rest =>
        simp only [Bool.false_eq_true, if_false, MqClient.opened, Option.map_some, hq] at hs
        obtain rfl := hs.eq_of_ne_done (by rintro value ⟨⟩)
        exact ⟨⟨d, .looking started memory⟩, rfl, .look (hq ▸ List.cons_ne_nil buffer rest)⟩

theorem looking_step
    (hP : ClientProcess.behaviour.Step mqAttr mayFail
      ⟨d, (ClientStage.looking started memory).program receiverId⟩ q P q') :
    ∃ C, P = Client.toProcess receiverId C ∧
      ClientMove mayFail receiverId ⟨d, .looking started memory⟩ q C q' := by
  cases hP with
  | call hf hr hs =>
    obtain ⟨hfails, ⟨⟩⟩ | ⟨buffer, rest, hq, ⟨⟩⟩ :=
      Program.step_mqReceive (by rfl) (by rfl) (Nat.le_refl mqMaxLength) hr
    · cases hs.done with
      | checked hP =>
        obtain ⟨stage, hi, rfl⟩ := chooses_stage hP
        exact ⟨_, rfl, .checkInterrupted (hf hfails) hi⟩
    · by_cases hp : MqClient.checkedPid memory buffer = receiverId
      · simp only [MqClient.readyArrived_own hp] at hs
        cases hs.done with
        | checked hP =>
          obtain ⟨stage, hi, rfl⟩ := chooses_stage hP
          exact ⟨_, rfl, .checkTake hq hp hi⟩
      · simp only [MqClient.readyArrived_foreign hp] at hs
        obtain rfl := hs.eq_of_ne_done (by rintro value ⟨⟩)
        exact ⟨⟨_, .checkHolding started memory buffer⟩, rfl, .checkPass hq hp⟩

theorem checkHolding_step
    (hP : ClientProcess.behaviour.Step mqAttr mayFail
      ⟨d, (ClientStage.checkHolding started memory buffer).program receiverId⟩ q P q') :
    ∃ C, P = Client.toProcess receiverId C ∧
      ClientMove mayFail receiverId ⟨d, .checkHolding started memory buffer⟩ q C q' := by
  cases hP with
  | call hf hr hs =>
    rw [ClientStage.program, Program.step_mqSend_refused (by rintro ⟨⟨⟩, -⟩)] at hr
    cases hr
    cases hs.done with
    | checked hP =>
      obtain ⟨stage, hi, rfl⟩ := chooses_stage hP
      exact ⟨_, rfl, .checkLose hi⟩

theorem submitting_step {req : FittingRequest}
    (hP : ClientProcess.behaviour.Step mqAttr mayFail
      ⟨d, (ClientStage.submitting req res memory).program receiverId⟩ q P q') :
    ∃ C, P = Client.toProcess receiverId C ∧
      ClientMove mayFail receiverId ⟨d, .submitting req res memory⟩ q C q' := by
  cases hP with
  | call hf hr hs =>
    have hl : (requestMessage receiverId req.request).length ≤ mqAttr.messageSize := by
      rw [FittingRequest.request, requestMessage_of, length_message]
      exact req.fits
    rw [program_submitting] at hr
    obtain ⟨hroom, ⟨⟩⟩ := Program.step_mqSend (by rfl) hl hr
    cases hs.done with
    | submitted c req' res' => exact ⟨_, rfl, .submit hroom⟩

theorem awaiting_step
    (hP : ClientProcess.behaviour.Step mqAttr mayFail
      ⟨d, (ClientStage.awaiting req res).program receiverId⟩ q P q') :
    ∃ C, P = Client.toProcess receiverId C ∧
      ClientMove mayFail receiverId ⟨d, .awaiting req res⟩ q C q' := by
  cases hP with
  | call hf hr hs =>
    obtain ⟨hfails, ⟨⟩⟩ | ⟨buffer, rest, hq, ⟨⟩⟩ :=
      Program.step_mqReceive (by rfl) (by rfl) (Nat.le_refl mqMaxLength) hr
    · cases hs.done with
      | returned hP =>
        obtain ⟨stage, hi, rfl⟩ := chooses_stage hP
        exact ⟨_, rfl, .awaitInterrupted (hf hfails) hi⟩
    · by_cases hl : buffer.length < 5
      · simp only [MqClient.responseArrived_short hl] at hs
        cases hs.done with
        | returned hP =>
          obtain ⟨stage, hi, rfl⟩ := chooses_stage hP
          exact ⟨_, rfl, .awaitShort hq hl hi⟩
      · by_cases hp : receivedPid buffer = receiverId
        · simp only [MqClient.responseArrived_own (Nat.not_lt.mp hl) hp] at hs
          cases hs.done with
          | returned hP =>
            obtain ⟨stage, hi, rfl⟩ := chooses_stage hP
            exact ⟨_, rfl, .awaitTake hq (Nat.not_lt.mp hl) hp hi⟩
        · simp only [MqClient.responseArrived_foreign (Nat.not_lt.mp hl) hp] at hs
          obtain rfl := hs.eq_of_ne_done (by rintro value ⟨⟩)
          exact ⟨⟨_, .awaitHolding req res buffer⟩, rfl, .awaitPass hq (Nat.not_lt.mp hl) hp⟩

theorem awaitHolding_step
    (hP : ClientProcess.behaviour.Step mqAttr mayFail
      ⟨d, (ClientStage.awaitHolding req res buffer).program receiverId⟩ q P q') :
    ∃ C, P = Client.toProcess receiverId C ∧
      ClientMove mayFail receiverId ⟨d, .awaitHolding req res buffer⟩ q C q' := by
  cases hP with
  | call hf hr hs =>
    rw [ClientStage.program, Program.step_mqSend_refused (by rintro ⟨⟨⟩, -⟩)] at hr
    cases hr
    cases hs.done with
    | again c req' res' => exact ⟨⟨_, .awaiting req res⟩, rfl, .awaitLose⟩

/-- Every step of a client process is one of the steps of a client. -/
theorem client_step {C : Client}
    (hP : ClientProcess.behaviour.Step mqAttr mayFail (C.toProcess receiverId) q P q') :
    ∃ C', P = Client.toProcess receiverId C' ∧ ClientMove mayFail receiverId C q C' q' := by
  obtain ⟨d, stage⟩ := C
  cases stage with
  | checking started memory => exact checking_step hP
  | looking started memory => exact looking_step hP
  | checkHolding started memory buffer => exact checkHolding_step hP
  | submitting req res memory => exact submitting_step hP
  | awaiting req res => exact awaiting_step hP
  | awaitHolding req res buffer => exact awaitHolding_step hP

/-- Every step of a client can be made by its process. -/
theorem step_of_clientMove {C C' : Client} (hm : ClientMove mayFail receiverId C q C' q') :
    ClientProcess.behaviour.Step mqAttr mayFail (C.toProcess receiverId) q
      (C'.toProcess receiverId) q' := by
  cases hm with
  | @skip d q started memory stage he hi =>
    have hs : ClientProcess.Starts d
        (.checked ⟨false, MqClient.opened receiverId started, [], [], []⟩)
        (Client.toProcess receiverId ⟨d, stage⟩) := .checked (chooses_of_idle hi)
    cases he with
    | inl hf => exact .failing hf rfl (.started hs)
    | inr hq =>
      have hr : (Client.toProcess receiverId ⟨d, .checking started memory⟩).program.step mqAttr
          false q = some ⟨.done
            (.checked ⟨false, MqClient.opened receiverId started, [], [], []⟩), q, .silent⟩ := by
        simp [Client.toProcess, ClientStage.program, ClientProcess.checking,
          MqClient.checkForReady, MqClient.opened, Program.bind, Program.step, hq]
      exact .unfailing hr (.started hs)
  | @look d q started memory hne =>
    obtain ⟨buffer, rest, hq⟩ := List.exists_cons_of_ne_nil hne
    have hr : (Client.toProcess receiverId ⟨d, .checking started memory⟩).program.step mqAttr
        false q = some ⟨(ClientStage.looking started memory).program receiverId, q,
          .silent⟩ := by
      simp [Client.toProcess, ClientStage.program, ClientProcess.checking,
        MqClient.checkForReady, MqClient.opened, Program.bind, Program.step, hq]
    exact .unfailing hr (.running (by rintro value ⟨⟩))
  | checkInterrupted hf hi =>
    exact .failing hf Program.step_mqReceive_fails (.started (.checked (chooses_of_idle hi)))
  | checkPass hq hp =>
    refine .unfailing (Program.step_mqReceive_cons (by rfl) (Nat.le_refl mqMaxLength) hq) ?_
    simp only [MqClient.readyArrived_foreign hp]
    exact .running (by rintro value ⟨⟩)
  | checkTake hq hp hi =>
    refine .unfailing (Program.step_mqReceive_cons (by rfl) (Nat.le_refl mqMaxLength) hq) ?_
    simp only [MqClient.readyArrived_own hp]
    exact .started (.checked (chooses_of_idle hi))
  | checkLose hi =>
    exact .unfailing (Program.step_mqSend_refused (by rintro ⟨⟨⟩, -⟩))
      (.started (.checked (chooses_of_idle hi)))
  | @submit d q req res memory hroom =>
    have hl : (requestMessage receiverId req.request).length ≤ mqAttr.messageSize := by
      rw [FittingRequest.request, requestMessage_of, length_message]
      exact req.fits
    have hr : (Client.toProcess receiverId ⟨d, .submitting req res memory⟩).program.step mqAttr
        false q = some ⟨.done (.submitted true (MqClient.opened receiverId true) req.request res),
          Function.update q .requests (q .requests ++ [requestMessage receiverId req.request]),
          .sent .requests (requestMessage receiverId req.request)⟩ := by
      rw [Client.toProcess, program_submitting, Program.step_mqSend_room (by rfl) hl hroom]
    exact .unfailing hr (.started (.submitted _ _ _))
  | awaitInterrupted hf hi =>
    exact .failing hf Program.step_mqReceive_fails
      (.started (.returned (chooses_of_idle hi)))
  | awaitShort hq hl hi =>
    refine .unfailing (Program.step_mqReceive_cons (by rfl) (Nat.le_refl mqMaxLength) hq) ?_
    simp only [MqClient.responseArrived_short hl]
    exact .started (.returned (chooses_of_idle hi))
  | awaitPass hq hl hp =>
    refine .unfailing (Program.step_mqReceive_cons (by rfl) (Nat.le_refl mqMaxLength) hq) ?_
    simp only [MqClient.responseArrived_foreign hl hp]
    exact .running (by rintro value ⟨⟩)
  | awaitTake hq hl hp hi =>
    refine .unfailing (Program.step_mqReceive_cons (by rfl) (Nat.le_refl mqMaxLength) hq) ?_
    simp only [MqClient.responseArrived_own hl hp]
    exact .started (.returned (chooses_of_idle hi))
  | awaitLose =>
    exact .unfailing (Program.step_mqSend_refused (by rintro ⟨⟨⟩, -⟩)) (.started (.again _ _ _))

/-- An announcement of the right receiver starts the client. -/
theorem clientMove_readyMessage {rest : List Message} {stage : ClientStage}
    (hq : q .responses = readyMessage receiverId :: rest) (hi : ClientStage.Idle true stage) :
    ClientMove mayFail receiverId ⟨d, .looking started memory⟩ q
      ⟨{ d with taken := d.taken ++ [readyMessage receiverId] }, stage⟩
      (Function.update q .responses rest) := by
  have hl : 4 ≤ (readyMessage receiverId).length := by
    rw [length_readyMessage]
    decide
  refine .checkTake hq ?_ ?_
  · rw [MqClient.checkedPid_eq hl, readyMessage, receivedPid_pidToBytes]
  · rwa [decide_eq_true (isReady_readyMessage receiverId memory), Bool.or_true]

end

end VpTesting.ClientStages

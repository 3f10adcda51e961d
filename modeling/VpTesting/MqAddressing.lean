import VpTesting.MqTestingClient

namespace VpTesting.MqAddressing

open VpTesting.MessageQueue VpTesting.Types VpTesting.MqTestingCommunication
  VpTesting.MqTestingClient

/-- The id of a running process is not 0. -/
abbrev ProcessId := { pid : Pid // pid ≠ 0 }

/-- `receive_request` of the process returns true for the message. -/
def Receives (p : ProcessId) (buffer : Message) : Prop :=
  ∀ prior q rest, q .requests = buffer :: rest →
    ∃ c q', ((MqCommunication.listening p prior).receiveRequest).run mqAttr [false, false] q =
      some ((true, c), q')

/-- `check_for_ready` returns true for the message. -/
def Checks (receiverId : Pid) (buffer : Message) : Prop :=
  ∀ started memory q rest, q .responses = buffer :: rest →
    ∃ checked q', ((MqClient.opened receiverId started).checkForReady memory).run mqAttr
      [false, false, false] q = some (checked, q') ∧ checked.result = true

/-- The loop in `send_request` ends with the message as the answer. -/
def Answers (receiverId : Pid) (buffer : Message) : Prop :=
  ∀ res rounds schedule q rest, q .responses = buffer :: rest →
    (((MqClient.opened receiverId true).awaitResponse res).loop (rounds + 1)).run mqAttr
      (false :: schedule) q =
        some (some (storeResponse res buffer), Function.update q .responses rest)

/-- A client that holds the id takes the announcement and the responses of the process. -/
def Accepts (receiverId : Pid) (p : ProcessId) : Prop :=
  Checks receiverId (readyMessage p) ∧ ∀ res, Answers receiverId (responseMessage p res)

/-- If the process receives a request with the tag `receiverId`, the client that holds this
id takes what the process sends. -/
def Agree (receiverId : Pid) (p : ProcessId) : Prop :=
  ∀ req, Receives p (requestMessage receiverId req) → Accepts receiverId p

section

variable {receiverId : Pid} {p : ProcessId} {buffer : Message}

theorem receives_iff (hl : 5 ≤ buffer.length) : Receives p buffer ↔ Addressed p buffer := by
  constructor
  · intro h
    by_contra hn
    obtain ⟨q, hq⟩ : ∃ q : Queue → List Message, q .requests = [buffer] := ⟨fun _ => [buffer], rfl⟩
    obtain ⟨c, q', hr⟩ := h {} q [] hq
    rw [MqCommunication.run_receiveRequest [false] hq,
      MqCommunication.requestArrived_foreign hl hn] at hr
    cases Program.run_mqSend_done hr
  · intro ha prior q rest hq
    exact ⟨_, _, MqCommunication.run_receiveRequest_addressed [false] hq hl ha⟩

theorem not_checks (hl : 4 ≤ buffer.length) (hp : receivedPid buffer ≠ receiverId) :
    ¬Checks receiverId buffer := by
  intro h
  have hn : MqClient.checkedPid (fun _ => 0) buffer ≠ receiverId := by
    rwa [MqClient.checkedPid_eq hl]
  obtain ⟨q, hq⟩ : ∃ q : Queue → List Message, q .responses = [buffer] := ⟨fun _ => [buffer], rfl⟩
  obtain ⟨checked, q', hr, hresult⟩ := h false (fun _ => 0) q [] hq
  rw [MqClient.run_checkForReady [false] hq, MqClient.readyArrived_foreign hn] at hr
  rw [Program.run_mqSend_done hr] at hresult
  cases hresult

theorem checks_readyMessage (pid : Pid) : Checks pid (readyMessage pid) := by
  intro started memory q rest hq
  have hr : ((MqClient.opened pid started).checkForReady memory).run mqAttr
      [false, false, false] q = _ := MqClient.run_checkForReady [false] hq
  rw [MqClient.readyArrived_readyMessage] at hr
  exact ⟨_, _, hr, rfl⟩

theorem answers_own (hl : 5 ≤ buffer.length) (hp : receivedPid buffer = receiverId) :
    Answers receiverId buffer := by
  intro res rounds schedule q rest hq
  exact MqClient.run_awaitResponse_own schedule rounds hq hl hp

end

theorem accepts_iff (receiverId : Pid) (p : ProcessId) : Accepts receiverId p ↔ receiverId = p := by
  constructor
  · rintro ⟨hc, -⟩
    by_contra hn
    have hp : receivedPid (readyMessage p) ≠ receiverId := by
      rw [readyMessage, receivedPid_pidToBytes]
      exact fun he => hn he.symm
    exact not_checks (by simp [readyMessage]) hp hc
  · rintro rfl
    exact ⟨checks_readyMessage p, fun res =>
      answers_own (le_length_responseMessage p res) (receivedPid_pidToBytes _ _)⟩

/-- The rules agree for every id but 0, which the client does not take as an address of all. -/
theorem agree_iff (receiverId : Pid) (p : ProcessId) : Agree receiverId p ↔ receiverId ≠ 0 := by
  have hr (req : Request) : Receives p (requestMessage receiverId req) ↔
      receiverId = 0 ∨ receiverId = p := by
    rw [receives_iff (by simp [requestMessage]; omega), Addressed, requestMessage,
      receivedPid_pidToBytes]
  constructor
  · rintro h rfl
    have ha := h {} ((hr {}).mpr (Or.inl rfl))
    exact p.2 ((accepts_iff 0 p).mp ha).symm
  · intro hn req hreq
    exact (accepts_iff receiverId p).mpr (((hr req).mp hreq).resolve_left hn)

/-- A client that was not given an id does not recognise the announcement of process 1. -/
theorem broadcast_not_agree : ¬Agree 0 ⟨1, by decide⟩ := by
  rw [agree_iff]
  exact not_not.mpr rfl

end VpTesting.MqAddressing

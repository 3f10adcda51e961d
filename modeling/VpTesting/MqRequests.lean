import VpTesting.MqTestingClient

namespace VpTesting.MqRequests

open VpTesting.ByteMemory VpTesting.MessageQueue VpTesting.Types VpTesting.MqTestingCommunication
  VpTesting.MqTestingClient

variable (receiverId : Pid) (command : UInt8) (p : Payload) (memory : Nat → UInt8)

/-- The call of `send_request` of a started client. -/
def call (req : Request) (res : Response) (rounds : Nat) : MqProgram (Option Sent) :=
  (MqClient.opened receiverId true).sendRequest req res memory rounds

/-- With room in the queue the request is sent as one message, and every receiver that the
message is addressed to receives the same request when it takes the message. -/
def Delivered : Prop :=
  ∃ buffer,
    (∀ res rounds fails q, (q .requests).length < mqMaxMsg →
      ∃ next, (call receiverId memory (Request.of command p) res rounds).step mqAttr fails q =
        some ⟨next, Function.update q .requests (q .requests ++ [buffer]),
          .sent .requests buffer⟩) ∧
    ∀ pid, receiverId = 0 ∨ receiverId = pid → ∀ prior schedule q rest,
      q .requests = buffer :: rest →
        ((MqCommunication.listening pid prior).receiveRequest).run mqAttr (false :: schedule) q =
          some ((true, MqCommunication.listening pid (Request.of command p)),
            Function.update q .requests rest)

/-- The call returns false and leaves the queues as they are. -/
def Refused : Prop :=
  ∀ res rounds fails schedule q,
    (call receiverId memory (Request.of command p) res rounds).run mqAttr (fails :: schedule) q =
      some (some ⟨false, res⟩, q)

/-- What is written to the send buffer stays within its 256 bytes. -/
def WithinBuffer : Prop :=
  ∀ offset ∈ (requestBuffer receiverId (Request.of command p) memory).written, offset < mqMaxLength

def DeliveredOrRefused : Prop :=
  (5 + p.bytes.length ≤ mqMaxLength ∧ Delivered receiverId command p memory ∨
    Refused receiverId command p memory) ∧ WithinBuffer receiverId command p memory

theorem call_eq (res : Response) (rounds : Nat) :
    call receiverId memory (Request.of command p) res rounds =
      .mqSend (some { queue := .requests, access := .writeOnly })
        (pidToBytes receiverId ++ command :: p.bytes)
        fun sent => if sent then ((MqClient.opened receiverId true).awaitResponse res).loop rounds
          else .done (some ⟨false, res⟩) := by
  have hs := slice_requestBuffer receiverId (Request.of command p) memory (by simp)
  rw [requestMessage_of] at hs
  rw [← hs]
  rfl

theorem delivered (h : 5 + p.bytes.length ≤ mqMaxLength) :
    Delivered receiverId command p memory := by
  have hl := length_message receiverId command p
  refine ⟨pidToBytes receiverId ++ command :: p.bytes, ?_, ?_⟩
  · intro res rounds fails q hroom
    rw [call_eq]
    exact ⟨_, Program.step_mqSend_room rfl (hl ▸ h) hroom⟩
  · intro pid hp prior schedule q rest hq
    have ha : Addressed pid (pidToBytes receiverId ++ command :: p.bytes) := by
      rwa [Addressed, receivedPid_pidToBytes]
    rw [MqCommunication.run_receiveRequest_addressed schedule hq (by omega) ha,
      receivedRequest_message]

theorem refused (h : mqMaxLength < 5 + p.bytes.length) : Refused receiverId command p memory := by
  intro res rounds fails schedule q
  have hn : ¬((Access.writeOnly.writes = true) ∧
      (pidToBytes receiverId ++ command :: p.bytes).length ≤ mqAttr.messageSize) := by
    rw [length_message]
    exact fun hf => absurd hf.2 (Nat.not_le.mpr h)
  rw [call_eq, Program.run_step (Program.step_mqSend_refused hn)]
  exact Program.run_done _ schedule

theorem delivered_or_refused :
    5 + p.bytes.length ≤ mqMaxLength ∧ Delivered receiverId command p memory ∨
      Refused receiverId command p memory := by
  by_cases h : 5 + p.bytes.length ≤ mqMaxLength
  · exact Or.inl ⟨h, delivered receiverId command p memory h⟩
  · exact Or.inr (refused receiverId command p memory (Nat.not_le.mp h))

theorem written_eq :
    (requestBuffer receiverId (Request.of command p) memory).written =
      List.range (5 + p.bytes.length) := by
  rw [requestBuffer_written, Request.of_data, Request.of_dataLength, List.take_length,
    List.range'_append, List.range_eq_range']
  exact List.range'_append

/-- The copies go up to the framed size. -/
theorem withinBuffer_iff :
    WithinBuffer receiverId command p memory ↔ 5 + p.bytes.length ≤ mqMaxLength := by
  rw [WithinBuffer, written_eq]
  constructor
  · intro h
    by_contra hn
    exact absurd (h mqMaxLength (List.mem_range.mpr (Nat.not_le.mp hn))) (Nat.lt_irrefl _)
  · intro h offset ho
    exact Nat.lt_of_lt_of_le (List.mem_range.mp ho) h

/-- A request that is too long is refused, but not before it was copied. -/
theorem deliveredOrRefused_iff :
    DeliveredOrRefused receiverId command p memory ↔ 5 + p.bytes.length ≤ mqMaxLength := by
  constructor
  · rintro ⟨-, hw⟩
    exact (withinBuffer_iff receiverId command p memory).mp hw
  · intro h
    exact ⟨delivered_or_refused receiverId command p memory,
      (withinBuffer_iff receiverId command p memory).mpr h⟩

/-- SET_ERROR_SYMBOL with a name of 252 bytes. -/
theorem longSymbol_not_withinBuffer :
    ¬DeliveredOrRefused 1 (Command.toByte .setErrorSymbol)
      ⟨List.replicate 252 65, by rw [List.length_replicate]; decide⟩ fun _ => 0 := by
  rw [deliveredOrRefused_iff, List.length_replicate]
  decide

end VpTesting.MqRequests

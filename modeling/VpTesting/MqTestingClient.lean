import VpTesting.ByteMemory
import VpTesting.CStrings
import VpTesting.MqTestingCommunication

namespace VpTesting.MqTestingClient

open VpTesting.ByteMemory VpTesting.CStrings VpTesting.MessageQueue VpTesting.Types
  VpTesting.MqTestingCommunication

structure MqClient where
  mReceiverId : Pid := 0
  mMqtRequests : Mqd := none
  mMqtResponses : Mqd := none
  mStarted : Bool := false

/-- What `check_for_ready` returns, with its accesses to the buffer: those of the message as it
was received, and those behind the zero that is put there. -/
structure Checked where
  result : Bool
  client : MqClient
  bufferWrites : List Nat := []
  bufferReads : List Nat := []
  stringReads : List Nat := []

structure Sent where
  result : Bool
  res : Response
  deriving DecidableEq

/-- Whether the string behind the process id is the announcement. -/
def IsReady (buffer : Buffer UInt8) : Prop :=
  slice buffer.memory 4 readySignal.length = readySignal ∧
    buffer.memory (4 + readySignal.length) = 0

instance (buffer : Buffer UInt8) : Decidable (IsReady buffer) :=
  inferInstanceAs (Decidable (_ ∧ _))

theorem isReady_iff (buffer : Buffer UInt8) :
    IsReady buffer ↔ slice buffer.memory 4 6 = readySignal ++ [0] := by
  have ha : slice buffer.memory 4 6 = slice buffer.memory 4 5 ++ [buffer.memory 9] :=
    slice_add buffer.memory 4 5 1
  rw [ha]
  constructor
  · rintro ⟨hs, h0⟩
    exact congrArg₂ (fun xs x => xs ++ [x]) hs h0
  · intro h
    obtain ⟨hs, h0⟩ := List.append_inj' h rfl
    exact ⟨hs, List.singleton_inj.mp h0⟩

theorem isReady_readyMessage (pid : Pid) (memory : Nat → UInt8) :
    IsReady ((({ memory } : Buffer UInt8).copy 0 (readyMessage pid)).copy
      (readyMessage pid).length [0]) := by
  let b : Buffer UInt8 := ({ memory } : Buffer UInt8).copy 0 (readyMessage pid)
  have h0 : slice b.memory 0 9 = readyMessage pid := by
    have hs := Buffer.slice_copy ({ memory } : Buffer UInt8) 0 (readyMessage pid)
    rwa [length_readyMessage, slice_zero, List.nil_append] at hs
  have h1 : slice (b.copy 9 [0]).memory 0 10 = readyMessage pid ++ [0] := by
    have hs := Buffer.slice_copy b 9 [0]
    rwa [h0] at hs
  rw [isReady_iff, length_readyMessage]
  calc
    slice (b.copy 9 [0]).memory 4 6 = (slice (b.copy 9 [0]).memory 0 10).drop 4 :=
      (drop_slice (b.copy 9 [0]).memory 0 4 6).symm
    _ = readySignal ++ [0] := by
      rw [h1, readyMessage, List.append_assoc, List.drop_left' (length_pidToBytes pid)]

/-- The send buffer with the three copies made. -/
def requestBuffer (receiverId : Pid) (req : Request) (memory : Nat → UInt8) : Buffer UInt8 :=
  let buffer : Buffer UInt8 := { memory }
  let buffer := buffer.copy 0 (pidToBytes receiverId)
  let buffer := buffer.copy 4 [req.requestCommand]
  buffer.copy 5 ((req.data.getD []).take req.dataLength.toNat)

/-- What a message from the right receiver makes of the response object. -/
def storeResponse (res : Response) (buffer : Message) : Sent :=
  let res := { res with data := none, responseStatus := buffer.getD 4 0 }
  if res.responseStatus = Status.error.toByte then ⟨false, res⟩
  else if res.responseStatus = Status.malformed.toByte then ⟨false, res⟩
  else
    ⟨true, { res with
      dataLength := UInt32.ofNat (buffer.length - 1 - 4), data := receivedData buffer }⟩

namespace MqClient

def start (c : MqClient) : MqProgram (Bool × MqClient) :=
  .mqOpen .requests .writeOnly fun mMqtRequests =>
    let c := { c with mMqtRequests }
    if mMqtRequests.isNone then .done (false, c)
    else .mqOpen .responses .readOnly fun mMqtResponses =>
      let c := { c with mMqtResponses }
      .done (mMqtResponses.isSome, c)

def setReceiver (c : MqClient) (receiverId : Pid) : MqClient := { c with mReceiverId := receiverId }

/-- The part of `check_for_ready` behind `mq_receive`. The buffer was not initialized, so with
a short message the memory behind it is read too. The end of the string is looked for as far
as the byte behind the buffer. -/
def readyArrived (c : MqClient) (memory : Nat → UInt8) : Except Errno Message → MqProgram Checked
  | .error _ => .done ⟨false, c, [], [], []⟩
  | .ok message =>
    let buffer := ({ memory } : Buffer UInt8).copy 0 message
    let reads := List.range 4
    if bytesToPid (slice buffer.memory 0 4) ≠ c.mReceiverId then
      .mqSend c.mMqtResponses message fun _ =>
        .done ⟨false, c, buffer.written, reads ++ List.range message.length, []⟩
    else
      let buffer := buffer.copy message.length [0]
      let stringReads := scanned buffer.memory 4 (mqMaxLength - 3)
      if IsReady buffer then
        .done ⟨true, { c with mStarted := true }, buffer.written, reads, stringReads⟩
      else .done ⟨false, c, buffer.written, reads, stringReads⟩

def checkForReady (c : MqClient) (memory : Nat → UInt8) : MqProgram Checked :=
  .mqGetattr c.mMqtResponses fun
    | none => .done ⟨false, c, [], [], []⟩
    | some 0 => .done ⟨false, c, [], [], []⟩
    | some (_ + 1) => .mqReceive c.mMqtResponses mqMaxLength (c.readyArrived memory)

/-- The part of `send_request` up to `mq_send`. A request that is too long for one message
is logged, and copied and sent all the same. -/
def submitRequest (c : MqClient) (req : Request) (memory : Nat → UInt8) : MqProgram Bool :=
  .mqSend c.mMqtRequests
    (slice (requestBuffer c.mReceiverId req memory).memory 0 (5 + req.dataLength.toNat)) .done

def responseArrived (c : MqClient) (res : Response) :
    Except Errno Message → MqProgram (Option Sent)
  | .error _ => .done (some ⟨false, res⟩)
  | .ok buffer =>
    if buffer.length < 5 then .done (some ⟨false, res⟩)
    else if receivedPid buffer ≠ c.mReceiverId then
      .mqSend c.mMqtResponses buffer fun _ => .done none
    else .done (some (storeResponse res buffer))

/-- One round of the loop in `send_request`; `none` if there has to be another one. -/
def awaitResponse (c : MqClient) (res : Response) : MqProgram (Option Sent) :=
  .mqReceive c.mMqtResponses mqMaxLength (c.responseArrived res)

/-- The loop has no end of its own; after `rounds` rounds without a response from the right
receiver the result is `none`. -/
def sendRequest (c : MqClient) (req : Request) (res : Response) (memory : Nat → UInt8)
    (rounds : Nat) : MqProgram (Option Sent) :=
  if c.mStarted then
    (c.submitRequest req memory).bind fun sent =>
      if sent then (c.awaitResponse res).loop rounds else .done (some ⟨false, res⟩)
  else .done (some ⟨false, res⟩)

/-- The object once `start` has opened both queues. -/
def opened (mReceiverId : Pid) (mStarted : Bool) : MqClient :=
  { mReceiverId, mMqtRequests := some { queue := .requests, access := .writeOnly }
    mMqtResponses := some { queue := .responses, access := .readOnly }, mStarted }

theorem run_start (mReceiverId : Pid) (schedule : List Bool) (q : Queue → List Message) :
    (start { mReceiverId }).run mqAttr (false :: false :: schedule) q =
      some ((true, opened mReceiverId false), q) := by
  cases schedule <;> rfl

variable {mReceiverId : Pid} {mStarted : Bool} {res : Response} {buffer : Message}
  {memory : Nat → UInt8}

theorem responseArrived_short (hl : buffer.length < 5) :
    (opened mReceiverId mStarted).responseArrived res (.ok buffer) = .done (some ⟨false, res⟩) := by
  rw [responseArrived, if_pos hl]

theorem responseArrived_own (hl : 5 ≤ buffer.length) (hp : receivedPid buffer = mReceiverId) :
    (opened mReceiverId mStarted).responseArrived res (.ok buffer) =
      .done (some (storeResponse res buffer)) := by
  rw [responseArrived, if_neg (Nat.not_lt.mpr hl)]
  exact if_neg (not_not.mpr hp)

theorem responseArrived_foreign (hl : 5 ≤ buffer.length) (hp : receivedPid buffer ≠ mReceiverId) :
    (opened mReceiverId mStarted).responseArrived res (.ok buffer) =
      .mqSend (some { queue := .responses, access := .readOnly }) buffer fun _ => .done none := by
  rw [responseArrived, if_neg (Nat.not_lt.mpr hl)]
  exact if_pos hp

/-- The process id that `check_for_ready` reads from its buffer. -/
def checkedPid (memory : Nat → UInt8) (message : Message) : Pid :=
  bytesToPid (slice (({ memory } : Buffer UInt8).copy 0 message).memory 0 4)

/-- With four bytes or more, the process id is read from the message alone. -/
theorem checkedPid_eq (hl : 4 ≤ buffer.length) : checkedPid memory buffer = receivedPid buffer := by
  have hs := Buffer.slice_copy ({ memory } : Buffer UInt8) 0 buffer
  rw [Nat.zero_add, slice_zero, List.nil_append] at hs
  rw [checkedPid, ← take_slice _ 0 hl, hs, receivedPid]

theorem readyArrived_foreign (hp : checkedPid memory buffer ≠ mReceiverId) :
    (opened mReceiverId mStarted).readyArrived memory (.ok buffer) =
      .mqSend (some { queue := .responses, access := .readOnly }) buffer
        fun _ => .done ⟨false, opened mReceiverId mStarted,
          (({ memory } : Buffer UInt8).copy 0 buffer).written,
          List.range 4 ++ List.range buffer.length, []⟩ := by
  rw [readyArrived]
  exact if_pos hp

/-- With the right process id the result depends on the string behind it. -/
theorem readyArrived_own (hp : checkedPid memory buffer = mReceiverId) :
    (opened mReceiverId mStarted).readyArrived memory (.ok buffer) =
      let b := (({ memory } : Buffer UInt8).copy 0 buffer).copy buffer.length [0]
      .done ⟨decide (IsReady b), opened mReceiverId (mStarted || decide (IsReady b)),
        b.written, List.range 4, scanned b.memory 4 (mqMaxLength - 3)⟩ := by
  have hn : ¬bytesToPid (slice (({ memory } : Buffer UInt8).copy 0 buffer).memory 0 4) ≠
      (opened mReceiverId mStarted).mReceiverId := not_not.mpr hp
  rw [readyArrived]
  simp only [if_neg hn]
  split
  · next h => simp [h, opened]
  · next h => simp [h]

theorem readyArrived_readyMessage :
    (opened mReceiverId mStarted).readyArrived memory (.ok (readyMessage mReceiverId)) =
      let b := (({ memory } : Buffer UInt8).copy 0 (readyMessage mReceiverId)).copy
        (readyMessage mReceiverId).length [0]
      .done ⟨true, opened mReceiverId true, b.written, List.range 4,
        scanned b.memory 4 (mqMaxLength - 3)⟩ := by
  have hl : 4 ≤ (readyMessage mReceiverId).length := by
    rw [length_readyMessage]
    decide
  have hp : checkedPid memory (readyMessage mReceiverId) = mReceiverId := by
    rw [checkedPid_eq hl, readyMessage, receivedPid_pidToBytes]
  have hready := isReady_readyMessage mReceiverId memory
  rw [readyArrived_own hp]
  simp only [hready, decide_true, Bool.or_true]

variable {q : Queue → List Message} {rest : List Message} (schedule : List Bool)

/-- With a message in the queue, `check_for_ready` comes to `mq_receive`. -/
theorem run_checkForReady (hq : q .responses = buffer :: rest) :
    ((opened mReceiverId mStarted).checkForReady memory).run mqAttr
        (false :: false :: schedule) q =
      ((opened mReceiverId mStarted).readyArrived memory (.ok buffer)).run mqAttr schedule
        (Function.update q .responses rest) := by
  have hn : (q .responses).length = rest.length + 1 := by rw [hq, List.length_cons]
  have hg : ((opened mReceiverId mStarted).checkForReady memory).step mqAttr false q =
      some ⟨.mqReceive (some { queue := .responses, access := .readOnly }) mqMaxLength
        ((opened mReceiverId mStarted).readyArrived memory), q, .silent⟩ := by
    simp [checkForReady, opened, Program.step, hn]
  rw [Program.run_step hg]
  exact Program.run_step (Program.step_mqReceive_cons rfl (Nat.le_refl mqMaxLength) hq)

/-- A message from the right receiver ends the loop. -/
theorem run_awaitResponse_own (rounds : Nat) (hq : q .responses = buffer :: rest)
    (hl : 5 ≤ buffer.length) (hp : receivedPid buffer = mReceiverId) :
    (((opened mReceiverId mStarted).awaitResponse res).loop (rounds + 1)).run mqAttr
        (false :: schedule) q =
      some (some (storeResponse res buffer), Function.update q .responses rest) := by
  calc
    _ = (((opened mReceiverId mStarted).responseArrived res (.ok buffer)).bind
          (((opened mReceiverId mStarted).awaitResponse res).loop rounds).unlessSome).run mqAttr
            schedule (Function.update q .responses rest) :=
      Program.run_step (Program.step_mqReceive_cons rfl (Nat.le_refl mqMaxLength) hq)
    _ = _ := by
      rw [responseArrived_own hl hp]
      exact Program.run_done _ schedule

end MqClient

def requestMessage (receiverId : Pid) (req : Request) : Message :=
  pidToBytes receiverId ++ req.requestCommand :: (req.data.getD []).take req.dataLength.toNat

theorem requestMessage_of (receiverId : Pid) (command : UInt8) (p : Payload) :
    requestMessage receiverId (Request.of command p) =
      pidToBytes receiverId ++ command :: p.bytes := by
  rw [requestMessage, Request.of_data, Request.of_dataLength, List.take_length,
    Request.of_requestCommand]

/-- If the data are as long as announced, the buffer is sent as the request message. -/
theorem slice_requestBuffer (receiverId : Pid) (req : Request) (memory : Nat → UInt8)
    (hd : (req.data.getD []).length = req.dataLength.toNat) :
    slice (requestBuffer receiverId req memory).memory 0 (5 + req.dataLength.toNat) =
      requestMessage receiverId req := by
  let b0 : Buffer UInt8 := { memory }
  have h0 := Buffer.slice_copy b0 0 (pidToBytes receiverId)
  have h1 := Buffer.slice_copy (b0.copy 0 (pidToBytes receiverId)) 4 [req.requestCommand]
  have h2 := Buffer.slice_copy ((b0.copy 0 (pidToBytes receiverId)).copy 4 [req.requestCommand]) 5
    ((req.data.getD []).take req.dataLength.toNat)
  rw [List.length_take_of_le (Nat.le_of_eq hd.symm)] at h2
  simp only [Nat.zero_add, length_pidToBytes, slice_zero, List.nil_append] at h0
  simp only [List.length_singleton, Nat.reduceAdd, h0] at h1
  rw [h1] at h2
  rw [requestMessage, List.append_cons]
  exact h2

theorem requestBuffer_written (receiverId : Pid) (req : Request) (memory : Nat → UInt8) :
    (requestBuffer receiverId req memory).written =
      List.range' 0 4 ++ List.range' 4 1 ++
        List.range' 5 ((req.data.getD []).take req.dataLength.toNat).length := by
  simp [requestBuffer, Buffer.copy]

end VpTesting.MqTestingClient

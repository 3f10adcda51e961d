import VpTesting.BigEndian
import VpTesting.MessageQueue
import VpTesting.Types

namespace VpTesting.MqTestingCommunication

open VpTesting.BigEndian VpTesting.MessageQueue VpTesting.Types

inductive Queue
  | requests | responses
  deriving DecidableEq

abbrev Pid := Int32

abbrev Message := List UInt8

abbrev Mqd := Option (Descriptor Queue)

abbrev MqProgram := Program Queue UInt8

def mqAttr : Attributes := { maxMessages := mqMaxMsg, messageSize := mqMaxLength }

/-- A process id as it lies in memory, least significant byte first. -/
def pidToBytes (pid : Pid) : List UInt8 := (toBytes 4 pid.toUInt32.toNat).reverse

def bytesToPid (bytes : List UInt8) : Pid := (UInt32.ofNat (ofBytes bytes.reverse)).toInt32

@[simp] theorem length_pidToBytes (pid : Pid) : (pidToBytes pid).length = 4 := by
  rw [pidToBytes, List.length_reverse, length_toBytes]

@[simp] theorem bytesToPid_pidToBytes (pid : Pid) : bytesToPid (pidToBytes pid) = pid := by
  have hlt : pid.toUInt32.toNat < 256 ^ 4 := pid.toUInt32.toNat_lt
  rw [bytesToPid, pidToBytes, List.reverse_reverse, ofBytes_toBytes 4 _ hlt, UInt32.ofNat_toNat,
    Int32.toInt32_toUInt32]

theorem pidToBytes_bytesToPid {bytes : List UInt8} (hl : bytes.length = 4) :
    pidToBytes (bytesToPid bytes) = bytes := by
  have hr : bytes.reverse.length = 4 := by rw [List.length_reverse, hl]
  have hn := ofBytes_lt bytes.reverse
  have hb := toBytes_ofBytes bytes.reverse
  rw [hr] at hn hb
  have hlt : ofBytes bytes.reverse < 2 ^ 32 := hn
  rw [pidToBytes, bytesToPid, UInt32.toUInt32_toInt32, UInt32.toNat_ofNat', Nat.mod_eq_of_lt hlt,
    hb, List.reverse_reverse]

/-- The process id a message starts with. -/
def receivedPid (buffer : Message) : Pid := bytesToPid (buffer.take 4)

@[simp] theorem receivedPid_pidToBytes (pid : Pid) (bytes : List UInt8) :
    receivedPid (pidToBytes pid ++ bytes) = pid := by
  rw [receivedPid, List.take_left' (length_pidToBytes pid), bytesToPid_pidToBytes]

/-- The bytes behind the process id and the command or status. -/
def receivedData (buffer : Message) : Option (List UInt8) :=
  if 1 < buffer.length - 4 then some (buffer.drop 5) else none

/-- The request a message is read as, whoever it is for. -/
def receivedRequest (buffer : Message) : Request where
  requestCommand := buffer.getD 4 0
  data := receivedData buffer
  dataLength := UInt32.ofNat (buffer.length - 1 - 4)

section

variable (pid : Pid) (first : UInt8) (p : Payload)

theorem length_message : (pidToBytes pid ++ first :: p.bytes).length = 5 + p.bytes.length := by
  simp
  omega

theorem getD_message : (pidToBytes pid ++ first :: p.bytes).getD 4 0 = first := by
  simp [List.getD]

theorem receivedData_message :
    receivedData (pidToBytes pid ++ first :: p.bytes) = p.pointer := by
  have hl := length_message pid first p
  have hd : (pidToBytes pid ++ first :: p.bytes).drop 5 = p.bytes := by
    rw [List.append_cons, List.drop_left' (by simp)]
  by_cases hp : p.bytes = []
  · rw [receivedData, if_neg (by rw [hl, hp]; simp), Payload.pointer_eq_none hp]
  · have hpos := List.length_pos_iff.mpr hp
    rw [receivedData, if_pos (by omega), Payload.pointer_eq_some hp, hd]

theorem dataLength_message :
    UInt32.ofNat ((pidToBytes pid ++ first :: p.bytes).length - 1 - 4) = p.length := by
  rw [length_message, Payload.length]
  congr 1
  omega

theorem receivedRequest_message :
    receivedRequest (pidToBytes pid ++ first :: p.bytes) = Request.of first p := by
  rw [receivedRequest, getD_message, receivedData_message, dataLength_message]
  rfl

end

/-- The string that announces readiness, without a terminating zero. -/
def readySignal : List UInt8 := [114, 101, 97, 100, 121]

/-- The process id is that of the process that uses the object. -/
structure MqCommunication where
  pid : Pid
  mMqtRequests : Mqd := none
  mMqtResponses : Mqd := none
  mStarted : Bool := false
  mCurrentReq : Request := {}

def readyMessage (pid : Pid) : Message := pidToBytes pid ++ readySignal

@[simp] theorem length_readyMessage (pid : Pid) : (readyMessage pid).length = 9 := by
  rw [readyMessage, List.length_append, length_pidToBytes]
  rfl

theorem eq_readyMessage_iff {pid : Pid} {buffer : Message} (hl : 4 ≤ buffer.length) :
    buffer = readyMessage pid ↔ receivedPid buffer = pid ∧ buffer.drop 4 = readySignal := by
  constructor
  · rintro rfl
    rw [readyMessage, receivedPid_pidToBytes, List.drop_left' (length_pidToBytes pid)]
    exact ⟨rfl, rfl⟩
  · rintro ⟨rfl, hd⟩
    rw [readyMessage, receivedPid, pidToBytes_bytesToPid (List.length_take_of_le hl), ← hd,
      List.take_append_drop]

def responseMessage (pid : Pid) (res : Response) : Message :=
  pidToBytes pid ++ res.responseStatus :: (res.data.getD []).take res.dataLength.toNat

theorem le_length_responseMessage (pid : Pid) (res : Response) :
    5 ≤ (responseMessage pid res).length := by
  simp [responseMessage]
  omega

/-- A receiver takes requests for any receiver and those for itself. -/
def Addressed (pid : Pid) (buffer : Message) : Prop :=
  receivedPid buffer = 0 ∨ receivedPid buffer = pid

instance (pid : Pid) (buffer : Message) : Decidable (Addressed pid buffer) :=
  inferInstanceAs (Decidable (_ ∨ _))

namespace MqCommunication

/-- The last step of `start`. -/
def announce (c : MqCommunication) : MqProgram (Bool × MqCommunication) :=
  .mqSend c.mMqtResponses (readyMessage c.pid) fun sent =>
    if sent then .done (true, { c with mStarted := true }) else .done (false, c)

def start (c : MqCommunication) : MqProgram (Bool × MqCommunication) :=
  .mqOpen .requests .readWrite fun mMqtRequests =>
    let c := { c with mMqtRequests }
    if mMqtRequests.isNone then .done (false, c)
    else .mqOpen .responses .writeOnly fun mMqtResponses =>
      let c := { c with mMqtResponses }
      if mMqtResponses.isNone then .done (false, c) else c.announce

/-- A response that is too long for one message is logged, and sent all the same. -/
def sendResponse (c : MqCommunication) (res : Response) : MqProgram Bool :=
  if c.mStarted then .mqSend c.mMqtResponses (responseMessage c.pid res) .done else .done false

/-- The part of `receive_request` behind `mq_receive`. A message for another receiver is put
back, and no more is received for now. -/
def requestArrived (c : MqCommunication) :
    Except Errno Message → MqProgram (Bool × MqCommunication)
  | .error _ => .done (false, c)
  | .ok buffer =>
    if buffer.length < 5 then .done (false, c)
    else if receivedPid buffer ≠ 0 ∧ receivedPid buffer ≠ c.pid then
      .mqSend c.mMqtRequests buffer fun _ => .done (false, c)
    else .done (true, { c with mCurrentReq := receivedRequest buffer })

/-- Whether a request was received, and the object with it. -/
def receiveRequest (c : MqCommunication) : MqProgram (Bool × MqCommunication) :=
  if c.mStarted then .mqReceive c.mMqtRequests mqMaxLength c.requestArrived else .done (false, c)

/-- The object once `start` has opened both queues. -/
def opened (pid : Pid) : MqCommunication :=
  { pid, mMqtRequests := some { queue := .requests, access := .readWrite }
    mMqtResponses := some { queue := .responses, access := .writeOnly } }

/-- The object once it has announced itself. -/
def listening (pid : Pid) (mCurrentReq : Request) : MqCommunication :=
  { opened pid with mStarted := true, mCurrentReq }

theorem run_start (pid : Pid) (schedule : List Bool) (q : Queue → List Message) :
    (start { pid }).run mqAttr (false :: false :: schedule) q =
      ((opened pid).announce).run mqAttr schedule q := rfl

variable {pid : Pid} {req : Request} {buffer : Message}

theorem requestArrived_short (hl : buffer.length < 5) :
    (listening pid req).requestArrived (.ok buffer) = .done (false, listening pid req) := by
  rw [requestArrived, if_pos hl]

theorem requestArrived_addressed (hl : 5 ≤ buffer.length) (ha : Addressed pid buffer) :
    (listening pid req).requestArrived (.ok buffer) =
      .done (true, listening pid (receivedRequest buffer)) := by
  have hf : ¬(receivedPid buffer ≠ 0 ∧ receivedPid buffer ≠ pid) := by
    rintro ⟨h0, hp⟩
    exact ha.elim h0 hp
  rw [requestArrived, if_neg (Nat.not_lt.mpr hl)]
  exact if_neg hf

theorem requestArrived_foreign (hl : 5 ≤ buffer.length) (ha : ¬Addressed pid buffer) :
    (listening pid req).requestArrived (.ok buffer) =
      .mqSend (some { queue := .requests, access := .readWrite }) buffer
        fun _ => .done (false, listening pid req) := by
  rw [requestArrived, if_neg (Nat.not_lt.mpr hl)]
  exact if_pos (not_or.mp ha)

variable {q : Queue → List Message} {rest : List Message} (schedule : List Bool)

theorem run_receiveRequest (hq : q .requests = buffer :: rest) :
    ((listening pid req).receiveRequest).run mqAttr (false :: schedule) q =
      ((listening pid req).requestArrived (.ok buffer)).run mqAttr schedule
        (Function.update q .requests rest) :=
  Program.run_step (Program.step_mqReceive_cons rfl (Nat.le_refl mqMaxLength) hq)

/-- A message that is long enough and addressed to the receiver is received. -/
theorem run_receiveRequest_addressed (hq : q .requests = buffer :: rest) (hl : 5 ≤ buffer.length)
    (ha : Addressed pid buffer) :
    ((listening pid req).receiveRequest).run mqAttr (false :: schedule) q =
      some ((true, listening pid (receivedRequest buffer)),
        Function.update q .requests rest) := by
  rw [run_receiveRequest schedule hq, requestArrived_addressed hl ha, Program.run_done]

end MqCommunication

end VpTesting.MqTestingCommunication

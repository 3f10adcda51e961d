import Mathlib.Logic.Relation
import VpTesting.HandleRequest
import VpTesting.MqTestingClient
import VpTesting.Processes

namespace VpTesting.MqProcesses

open VpTesting.MessageQueue VpTesting.Types VpTesting.Processes VpTesting.HandlerCalls
  VpTesting.HandleRequest VpTesting.MqTestingCommunication VpTesting.MqTestingClient

variable {ι κ σ : Type}

abbrev Queues := Queue → List Message

/-- The state of the receiver object, and what happened so far: the requests handled with
their responses, the messages taken from the request queue, and those put in the response
queue. -/
structure ReceiverData (σ : Type) where
  state : σ
  handled : List (Request × Response) := []
  taken : List Message := []
  put : List Message := []

inductive ReceiverReturn
  | announced (result : Bool) (c : MqCommunication)
  | received (result : Bool) (c : MqCommunication)
  | responded (sent : Bool) (c : MqCommunication)

abbrev ReceiverProcess (σ : Type) := Process Queue UInt8 (ReceiverData σ) ReceiverReturn

namespace ReceiverProcess

def announcing (c : MqCommunication) : MqProgram ReceiverReturn :=
  c.announce.bind fun r => .done (.announced r.1 r.2)

def receiving (c : MqCommunication) : MqProgram ReceiverReturn :=
  c.receiveRequest.bind fun r => .done (.received r.1 r.2)

def responding (c : MqCommunication) (res : Response) : MqProgram ReceiverReturn :=
  (c.sendResponse res).bind fun sent => .done (.responded sent c)

/-- The request is handled, with some contents of the uninitialized variables. -/
def handle (h : Handlers σ) (g : Indeterminate) (req : Request) (d : ReceiverData σ) :
    ReceiverData σ :=
  let s := ((handleRequest h g req).run { state := d.state }).2
  { d with state := s.state, handled := d.handled ++ [(req, s.res)] }

/-- The response a request is handled with. -/
def response (h : Handlers σ) (g : Indeterminate) (req : Request) (d : ReceiverData σ) : Response :=
  ((handleRequest h g req).run { state := d.state }).2.res

/-- How `receiver_loop` goes on, once it was entered after the announcement. -/
inductive Starts (h : Handlers σ) (d : ReceiverData σ) :
    ReceiverReturn → ReceiverProcess σ → Prop
  | announced (c : MqCommunication) : Starts h d (.announced true c) ⟨d, receiving c⟩
  | refused (c : MqCommunication) : Starts h d (.received false c) ⟨d, receiving c⟩
  | received (c : MqCommunication) (g : Indeterminate) :
    Starts h d (.received true c)
      ⟨handle h g c.mCurrentReq d, responding c (response h g c.mCurrentReq d)⟩
  | responded (sent : Bool) (c : MqCommunication) :
    Starts h d (.responded sent c) ⟨d, receiving c⟩

def record (d : ReceiverData σ) : Event Queue UInt8 → ReceiverData σ
  | .received _ message => { d with taken := d.taken ++ [message] }
  | .sent .responses message => { d with put := d.put ++ [message] }
  | _ => d

def behaviour (h : Handlers σ) : Behaviour Queue UInt8 (ReceiverData σ) ReceiverReturn where
  record := record
  starts := Starts h

end ReceiverProcess

/-- A request whose message is not longer than the queue allows. -/
structure FittingRequest where
  command : UInt8
  payload : Payload
  fits : 5 + payload.bytes.length ≤ mqMaxLength

def FittingRequest.request (req : FittingRequest) : Request := Request.of req.command req.payload

def FittingRequest.withoutData (command : Command) : FittingRequest :=
  ⟨command.toByte, .empty, by decide⟩

/-- KILL with its one byte of data. -/
def killRequest : FittingRequest := ⟨Command.kill.toByte, .single 1, by decide⟩

theorem receivedPid_requestMessage (receiverId : Pid) (req : FittingRequest) :
    receivedPid (requestMessage receiverId req.request) = receiverId := by
  rw [FittingRequest.request, requestMessage_of, receivedPid_pidToBytes]

theorem receivedRequest_requestMessage (receiverId : Pid) (req : FittingRequest) :
    receivedRequest (requestMessage receiverId req.request) = req.request := by
  rw [FittingRequest.request, requestMessage_of, receivedRequest_message]

/-- The requests sent so far, the messages taken from the response queue, those of them whose
put-back failed, and the requests whose `send_request` has returned, with what it returned. -/
structure ClientData where
  sent : List Request := []
  taken : List Message := []
  lost : List Message := []
  completed : List (Request × Sent) := []

inductive ClientReturn
  | checked (r : Checked)
  | submitted (sent : Bool) (c : MqClient) (req : Request) (res : Response)
  | awaited (r : Option Sent) (c : MqClient) (req : Request) (res : Response)

abbrev ClientProcess := Process Queue UInt8 ClientData ClientReturn

namespace ClientProcess

def checking (c : MqClient) (memory : Nat → UInt8) : MqProgram ClientReturn :=
  (c.checkForReady memory).bind fun r => .done (.checked r)

def submitting (c : MqClient) (req : Request) (res : Response) (memory : Nat → UInt8) :
    MqProgram ClientReturn :=
  (c.submitRequest req memory).bind fun sent => .done (.submitted sent c req res)

def awaiting (c : MqClient) (req : Request) (res : Response) : MqProgram ClientReturn :=
  (c.awaitResponse res).bind fun r => .done (.awaited r c req res)

/-- The calls a program may make of its client: it looks for the announcement, or sends a
request, which does nothing unless the client is started. -/
inductive Chooses (d : ClientData) (c : MqClient) : ClientProcess → Prop
  | check (memory : Nat → UInt8) : Chooses d c ⟨d, checking c memory⟩
  | request (hs : c.mStarted = true) (req : FittingRequest) (res : Response)
    (memory : Nat → UInt8) : Chooses d c ⟨d, submitting c req.request res memory⟩

inductive Starts (d : ClientData) : ClientReturn → ClientProcess → Prop
  | checked {r : Checked} {P : ClientProcess} (hP : Chooses d r.client P) :
    Starts d (.checked r) P
  | refused {c : MqClient} {req : Request} {res : Response} {P : ClientProcess}
    (hP : Chooses d c P) : Starts d (.submitted false c req res) P
  | submitted (c : MqClient) (req : Request) (res : Response) :
    Starts d (.submitted true c req res)
      ⟨{ d with sent := d.sent ++ [req] }, awaiting c req res⟩
  | again (c : MqClient) (req : Request) (res : Response) :
    Starts d (.awaited none c req res) ⟨d, awaiting c req res⟩
  | returned {r : Sent} {c : MqClient} {req : Request} {res : Response} {P : ClientProcess}
    (hP : Chooses { d with completed := d.completed ++ [(req, r)] } c P) :
    Starts d (.awaited (some r) c req res) P

def record (d : ClientData) : Event Queue UInt8 → ClientData
  | .received _ message => { d with taken := d.taken ++ [message] }
  | .refused message => { d with lost := d.lost ++ [message] }
  | _ => d

def behaviour : Behaviour Queue UInt8 ClientData ClientReturn where
  record := record
  starts := Starts

end ClientProcess

/-- Receivers and clients that share a request queue and a response queue. -/
structure System (ι κ σ : Type) where
  queues : Queues
  receivers : ι → ReceiverProcess σ
  clients : κ → ClientProcess

variable [DecidableEq ι] [DecidableEq κ]

/-- One call of one process. Calls fail for reasons outside the queues only if `mayFail` holds. -/
inductive Step (h : ι → Handlers σ) (mayFail : Prop) (s : System ι κ σ) : System ι κ σ → Prop
  | receiver (i : ι) {P : ReceiverProcess σ} {q : Queues}
    (hP : (ReceiverProcess.behaviour (h i)).Step mqAttr mayFail (s.receivers i) s.queues P q) :
    Step h mayFail s { s with queues := q, receivers := Function.update s.receivers i P }
  | client (k : κ) {P : ClientProcess} {q : Queues}
    (hP : ClientProcess.behaviour.Step mqAttr mayFail (s.clients k) s.queues P q) :
    Step h mayFail s { s with queues := q, clients := Function.update s.clients k P }

def Reachable (h : ι → Handlers σ) (mayFail : Prop) : System ι κ σ → System ι κ σ → Prop :=
  Relation.ReflTransGen (Step h mayFail)

/-- Empty queues, receivers that have opened them and are about to announce themselves, and
clients that have opened them. -/
structure Fresh (pid : ι → Pid) (receiverId : κ → Pid) (s : System ι κ σ) : Prop where
  queues : ∀ q, s.queues q = []
  receivers : ∀ i, ∃ v : σ, s.receivers i =
    ⟨{ state := v }, ReceiverProcess.announcing (MqCommunication.opened (pid i))⟩
  clients : ∀ k, ∃ started,
    ClientProcess.Chooses {} (MqClient.opened (receiverId k) started) (s.clients k)

end VpTesting.MqProcesses

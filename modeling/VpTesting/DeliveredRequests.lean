import VpTesting.MqTestingCommunication
import VpTesting.PipeTestingCommunication
import VpTesting.RequestDecoding

namespace VpTesting.DeliveredRequests

open VpTesting.ByteMemory VpTesting.MessageQueue VpTesting.Types VpTesting.Pipe
  VpTesting.PipeFrames VpTesting.ReceiveLoop VpTesting.PipeTestingCommunication
  VpTesting.MqTestingCommunication VpTesting.HandlerCalls VpTesting.HandleRequest
  VpTesting.HandlerSimulation VpTesting.RequestDecoding

variable {σ : Type}

/-- A request as the loop hands it on: with its data, or, over pipes, announced with one byte of
data that was not read. -/
inductive Delivery
  | whole (command : UInt8) (payload : Payload)
  | single (command : UInt8)

def Delivery.request : Delivery → Request
  | whole command payload => Request.of command payload
  | single command => { requestCommand := command, data := none, dataLength := 1 }

def Delivery.command : Delivery → UInt8
  | whole command _ | single command => command

theorem exists_delivery_of_length {command : UInt8} {dataLength : UInt32}
    {data : Option (List UInt8)}
    (hd : if 1 < dataLength.toNat then ∃ bytes, data = some bytes ∧ bytes.length = dataLength.toNat
      else data = none) :
    ∃ d : Delivery, (⟨command, data, dataLength⟩ : Request) = d.request := by
  have hlt := dataLength.toNat_lt
  split_ifs at hd with hl
  · obtain ⟨bytes, rfl, hbytes⟩ := hd
    have hne : bytes ≠ [] := List.ne_nil_of_length_pos (by omega)
    have hlength : dataLength = UInt32.ofNat bytes.length := by rw [hbytes, UInt32.ofNat_toNat]
    refine ⟨.whole command ⟨bytes, hbytes ▸ hlt⟩, ?_⟩
    rw [Delivery.request, Request.of, Payload.pointer_eq_some hne]
    exact congrArg (Request.mk command (some bytes)) hlength
  · subst hd
    obtain h0 | h1 : dataLength.toNat = 0 ∨ dataLength.toNat = 1 := by omega
    · obtain rfl : dataLength = 0 := UInt32.toNat.inj h0
      exact ⟨.whole command .empty, rfl⟩
    · obtain rfl : dataLength = 1 := UInt32.toNat.inj h1
      exact ⟨.single command, rfl⟩

/-- What `receive_request` over pipes leaves when it returns true. -/
theorem exists_delivery_of_pipe {c c' : PipeCommunication} {outcomes : Stream' ReadOutcome}
    {pipe left : List UInt8} (hr : c.receiveRequest outcomes pipe = some ⟨true, c', left⟩) :
    ∃ d : Delivery, c'.mCurrentReq = d.request := by
  unfold PipeCommunication.receiveRequest at hr
  split at hr
  · split at hr
    · cases hr
    · cases hr
    · split at hr
      · cases hr
      · next hdata =>
        cases hr
        exact exists_delivery_of_length (receiveData_received hdata)
      · cases hr
  · cases hr

/-- A message is read as the request with the bytes behind the command byte. -/
theorem receivedRequest_eq {buffer : Message} (hl : 5 ≤ buffer.length)
    (hlt : (buffer.drop 5).length < 2 ^ 32) :
    receivedRequest buffer = Request.of (buffer.getD 4 0) ⟨buffer.drop 5, hlt⟩ := by
  have hlength : buffer.length - 1 - 4 = (buffer.drop 5).length := by
    rw [List.length_drop]
    omega
  rw [receivedRequest, Request.of, Payload.length, hlength, receivedData]
  by_cases hd : buffer.drop 5 = []
  · rw [Payload.pointer_eq_none hd, if_neg]
    rw [List.drop_eq_nil_iff] at hd
    omega
  · rw [Payload.pointer_eq_some hd, if_pos]
    rw [List.drop_eq_nil_iff] at hd
    omega

/-- What `receive_request` over message queues leaves when it returns true for a message. -/
theorem exists_delivery_of_mq {c c' : MqCommunication} {buffer : Message}
    (hm : buffer.length ≤ mqMaxLength) (hr : c.requestArrived (.ok buffer) = .done (true, c')) :
    ∃ d : Delivery, c'.mCurrentReq = d.request := by
  rw [MqCommunication.requestArrived] at hr
  split_ifs at hr with hl hp
  · cases hr
  · cases hr
    have hlt : (buffer.drop 5).length < 2 ^ 32 := by
      have hdrop : (buffer.drop 5).length ≤ buffer.length := by simp
      exact Nat.lt_of_le_of_lt (hdrop.trans hm) (by decide)
    exact ⟨.whole (buffer.getD 4 0) ⟨buffer.drop 5, hlt⟩,
      receivedRequest_eq (Nat.not_lt.mp hl) hlt⟩

/-- The commands that read the one byte of a payload. -/
def singleReaders : List Command := [.kill, .removeBreakpoint, .setErrorSymbol]

section

variable (h : Handlers σ) (g : Indeterminate) (v : σ)

/-- The one byte that was not read is looked at, or the event of a CONTINUE cannot be copied. -/
def Delivery.Fatal : Delivery → Prop
  | whole command payload =>
    Command.ofByte command = some .«continue» ∧ payload.bytes = [] ∧
      ¬Copyable (h (.handleContinue { event := g.eventType }) v).out
  | single command => ∃ c ∈ singleReaders, Command.ofByte command = some c

theorem accessesFor_empty (command : UInt8) :
    ∀ a ∈ accessesFor h g v { requestCommand := command }, a.length = 0 := by
  cases hc : Command.ofByte command with
  | none => simp [accessesFor, handleRequest, hc]
  | some c => cases c <;> simp [accessesFor, handleRequest, hc]

theorem exists_access_single_iff (command : UInt8) :
    (∃ a ∈ accessesFor h g v (Delivery.single command).request, 0 < a.length) ↔
      ∃ c ∈ singleReaders, Command.ofByte command = some c := by
  cases hc : Command.ofByte command with
  | none => simp [accessesFor, handleRequest, Delivery.request, hc]
  | some c =>
    cases c <;> simp [accessesFor, handleRequest, Delivery.request, singleReaders, hc]

theorem mem_callsFor_continue_iff (command : UInt8) (p : Payload) (e : Event) :
    .handleContinue e ∈ callsFor h g v (Request.of command p) ↔
      Command.ofByte command = some .«continue» ∧ p.bytes = [] ∧ e = { event := g.eventType } := by
  cases hc : Command.ofByte command with
  | none => simp [callsFor, handleRequest, hc]
  | some c =>
    obtain rfl := (Command.ofByte_eq_some_iff command c).mp hc
    by_cases hk : c = .«continue»
    · subst hk
      by_cases hp : p.bytes = []
      · simp [callsFor, handleRequest, hp]
      · simp [callsFor, handleRequest, hp]
    · refine iff_of_false (fun hm => hk ?_) fun hn => hk (Option.some.inj hn.1)
      by_cases hp : Passes (view p.bytes g.beyond) p.bytes.length c
      · rw [callsFor_of_passes h g v c p hp, List.mem_singleton] at hm
        exact (branch_decoded g _ _ c).symm.trans (congrArg branch hm).symm
      · rw [callsFor_of_not_passes h g v c p hp] at hm
        exact absurd hm List.not_mem_nil

theorem not_mem_callsFor_single (command : UInt8) (e : Event) :
    .handleContinue e ∉ callsFor h g v (Delivery.single command).request := by
  cases hc : Command.ofByte command with
  | none => simp [callsFor, handleRequest, Delivery.request, hc]
  | some c => cases c <;> simp [callsFor, handleRequest, Delivery.request, hc]

/-- The requests that end the process. -/
theorem crashes_iff (d : Delivery) : Crashes h g v d.request ↔ d.Fatal h g v := by
  cases d with
  | whole command payload =>
    have hread : ¬((Request.of command payload).data = none ∧
        ∃ a ∈ accessesFor h g v (Request.of command payload), 0 < a.length) := by
      rintro ⟨hd, a, ha, hpos⟩
      by_cases hp : payload.bytes = []
      · obtain rfl : payload = .empty := by
          obtain ⟨bytes, hlt⟩ := payload
          obtain rfl : bytes = [] := hp
          rfl
        have h0 := accessesFor_empty h g v command a ha
        omega
      · rw [Request.of, Payload.pointer_eq_some hp] at hd
        cases hd
    rw [Crashes, Delivery.Fatal, Delivery.request, or_iff_right hread]
    simp only [mem_callsFor_continue_iff]
    constructor
    · rintro ⟨e, ⟨hc, hp, rfl⟩, hn⟩
      exact ⟨hc, hp, hn⟩
    · rintro ⟨hc, hp, hn⟩
      exact ⟨_, ⟨hc, hp, rfl⟩, hn⟩
  | single command =>
    rw [Crashes, Delivery.Fatal, or_iff_left]
    · exact (and_iff_right rfl).trans (exists_access_single_iff h g v command)
    · rintro ⟨e, hm, -⟩
      exact not_mem_callsFor_single h g v command e hm

end

end VpTesting.DeliveredRequests

import VpTesting.PipeTestingClient

namespace VpTesting.PipeResponses

open VpTesting.Types VpTesting.PipeFrames VpTesting.ReceiveLoop VpTesting.PipeTestingCommunication
  VpTesting.PipeTestingClient

/-- One call of a session: the request, what the response object holds before, the
answer of the receiver, the chunks its data arrive in, and what the receiver leaves
of the request pipe. -/
structure Exchange where
  req : Request
  res : Response
  status : Status
  data : Payload
  chunks : Stream' Nat
  consume : List UInt8 → List UInt8

namespace Exchange

def answer (e : Exchange) : Response := Response.of e.status.toByte e.data

/-- The receiver takes the request and sends its response. -/
def receiver (e : Exchange) (c : PipeCommunication) (pipes : Pipes) : Pipes :=
  { request := e.consume pipes.request
    response := (c.sendResponse e.answer .full .full pipes.response).2 }

def call (e : Exchange) (c : PipeCommunication) (client : PipeClient) (pipes : Pipes) :
    Option Sent :=
  client.sendRequest e.req e.res .full .full (e.receiver c) (arrival e.chunks) pipes

/-- The response object holds the status of the answer, and its data if that is STATUS_OK. -/
def Stored (e : Exchange) (res : Response) : Prop :=
  res.responseStatus = e.status.toByte ∧
    (e.status = .ok → res.data = e.answer.data ∧ res.dataLength = e.answer.dataLength)

end Exchange

/-- Every call returns with its own answer and leaves the response pipe empty. -/
def Synchronised (c : PipeCommunication) (client : PipeClient) : List Exchange → Pipes → Prop
  | [], _ => True
  | e :: es, pipes =>
    ∃ r, e.call c client pipes = some r ∧ r.pipes.response = [] ∧ e.Stored r.res ∧
      Synchronised c client es r.pipes

/-- The receiver and the client after the announcement was sent and consumed. -/
def connected : Option (PipeCommunication × PipeClient × Pipes) :=
  let r := PipeCommunication.start {} .full []
  (PipeClient.checkForReady {} true (.data 5) r.pipe).map fun checked =>
    (r.communication, checked.client, { response := checked.pipe })

theorem connected_eq : connected = some ({ mStarted := true }, { mStarted := true }, {}) := by
  rfl

section

variable (res : Response) (chunks : Stream' Nat) (p : Payload) (rest : List UInt8)

theorem readResponse_ok (hp : p.bytes.length ≠ 1) :
    PipeClient.readResponse res (arrival chunks) (frame Status.ok.toByte p ++ rest) =
      some (true, Response.of Status.ok.toByte p, rest) :=
  PipeClient.readResponse_received (whole_arrival chunks) (receiveData_payload chunks p rest hp)

theorem readResponse_one (hp : p.bytes.length = 1) :
    PipeClient.readResponse res (arrival chunks) (frame Status.ok.toByte p ++ rest) =
      some (true, ⟨Status.ok.toByte, none, p.length⟩, p.bytes ++ rest) :=
  PipeClient.readResponse_received (whole_arrival chunks)
    (receiveData_one (chunks.map .data) p rest hp)

end

theorem call_eq (e : Exchange) {pipes : Pipes} (hp : pipes.response = []) :
    ∃ request, e.call { mStarted := true } { mStarted := true } pipes =
      (PipeClient.readResponse e.res (arrival e.chunks) (frame e.status.toByte e.data ++ [])).map
        fun r => ⟨r.1, r.2.1, ⟨request, r.2.2⟩⟩ := by
  obtain ⟨request, hw⟩ : ∃ request,
      PipeClient.writeRequest e.req .full .full pipes.request = (true, request) := ⟨_, rfl⟩
  have hs : (PipeCommunication.sendResponse { mStarted := true } e.answer .full .full
      pipes.response).2 = frame e.status.toByte e.data ++ [] := by
    rw [hp, List.append_nil]
    exact congrArg Prod.snd (writeFrame_full e.status.toByte e.data [])
  refine ⟨e.consume request, ?_⟩
  simp only [Exchange.call, PipeClient.sendRequest, if_true, hw, Exchange.receiver, hs]

/-- The answers that a call of the client consumes to the last byte. -/
def Consumed (e : Exchange) : Prop :=
  (e.status = .ok → e.data.bytes.length ≠ 1) ∧ (e.status ≠ .ok → e.data.bytes = [])

theorem call_consumed (e : Exchange) {pipes : Pipes} (hp : pipes.response = [])
    (he : Consumed e) :
    ∃ r, e.call { mStarted := true } { mStarted := true } pipes = some r ∧
      r.pipes.response = [] ∧ e.Stored r.res := by
  obtain ⟨request, hc⟩ := call_eq e hp
  by_cases hs : e.status = .ok
  · rw [hs, readResponse_ok e.res e.chunks e.data [] (he.1 hs)] at hc
    refine ⟨_, hc, rfl, ?_, fun _ => ⟨rfl, rfl⟩⟩
    rw [hs]
    rfl
  · rw [PipeClient.readResponse_failed (whole_arrival e.chunks) hs, he.2 hs] at hc
    exact ⟨_, hc, rfl, rfl, fun hok => absurd hok hs⟩

/-- What is not consumed stays in the response pipe. -/
theorem call_not_consumed (e : Exchange) {pipes : Pipes} (hp : pipes.response = [])
    (he : ¬Consumed e) :
    ∃ r, e.call { mStarted := true } { mStarted := true } pipes = some r ∧
      r.pipes.response ≠ [] := by
  obtain ⟨request, hc⟩ := call_eq e hp
  by_cases hs : e.status = .ok
  · have hd : e.data.bytes.length = 1 := by
      by_contra hne
      exact he ⟨fun _ => hne, fun hf => absurd hs hf⟩
    rw [hs, readResponse_one e.res e.chunks e.data [] hd, List.append_nil] at hc
    exact ⟨_, hc, List.ne_nil_of_length_eq_add_one hd⟩
  · have hd : e.data.bytes ≠ [] := by
      intro hnil
      exact he ⟨fun hok => absurd hok hs, fun _ => hnil⟩
    rw [PipeClient.readResponse_failed (whole_arrival e.chunks) hs, List.append_nil] at hc
    exact ⟨_, hc, hd⟩

theorem synchronised_iff (es : List Exchange) {pipes : Pipes} (hp : pipes.response = []) :
    Synchronised { mStarted := true } { mStarted := true } es pipes ↔ ∀ e ∈ es, Consumed e := by
  induction es generalizing pipes with
  | nil => simp [Synchronised]
  | cons e es ih =>
    rw [List.forall_mem_cons, Synchronised]
    constructor
    · rintro ⟨r, hr, hempty, -, hes⟩
      have he : Consumed e := by
        by_contra hn
        obtain ⟨r', hr', hne⟩ := call_not_consumed e hp hn
        obtain rfl : r = r' := Option.some.inj (hr.symm.trans hr')
        exact hne hempty
      exact ⟨he, (ih hempty).mp hes⟩
    · rintro ⟨he, hes⟩
      obtain ⟨r, hr, hempty, hstored⟩ := call_consumed e hp he
      exact ⟨r, hr, hempty, hstored, (ih hempty).mpr hes⟩

/-- A session from the consumed announcement on. -/
def Session (es : List Exchange) : Prop :=
  ∃ c client pipes, connected = some (c, client, pipes) ∧ Synchronised c client es pipes

theorem session_iff_synchronised (es : List Exchange) :
    Session es ↔ Synchronised { mStarted := true } { mStarted := true } es {} := by
  constructor
  · rintro ⟨c, client, pipes, hconnected, hs⟩
    rw [connected_eq] at hconnected
    cases hconnected
    exact hs
  · intro hs
    exact ⟨_, _, _, connected_eq, hs⟩

/-- A session stays synchronised if and only if no answer has a single byte of data
under STATUS_OK, or any data under another status. -/
theorem session_iff (es : List Exchange) : Session es ↔ ∀ e ∈ es, Consumed e := by
  rw [session_iff_synchronised]
  exact synchronised_iff es rfl

/-- CONTINUE answered with the event VP_END, which has no additional data. -/
def vpEndExchange : Exchange where
  req := { requestCommand := Command.toByte .«continue» }
  res := {}
  status := .ok
  data := ⟨[EventType.vpEnd.toByte], by decide⟩
  chunks := Stream'.const 0
  consume := fun _ => []

theorem vpEnd_not_consumed : ¬Session [vpEndExchange] := by
  rw [session_iff_synchronised, synchronised_iff _ rfl]
  intro h
  exact (h vpEndExchange (List.mem_singleton_self _)).1 rfl rfl

end VpTesting.PipeResponses

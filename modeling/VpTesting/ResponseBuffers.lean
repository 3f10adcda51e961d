import VpTesting.MqTestingClient
import VpTesting.Ownership
import VpTesting.PipeTestingClient
import VpTesting.ProgramReplies

namespace VpTesting.ResponseBuffers

open VpTesting.Types VpTesting.Pipe VpTesting.PipeFrames VpTesting.ReceiveLoop
  VpTesting.MessageQueue VpTesting.MqTestingCommunication VpTesting.MqTestingClient
  VpTesting.PipeTestingClient VpTesting.ProgramReplies VpTesting.BufferLedger VpTesting.Ownership

/-- `send_request` of the client on pipes behind the two writes, with the buffer that the data of
the response object are in. -/
def pipeResponse (res : Response) (h : Holder) (outcomes : Stream' ReadOutcome)
    (pipe : List UInt8) : Option ((Bool × Response × List UInt8) × Holder) :=
  match readHeader outcomes.head pipe with
  | none => none
  | some (none, pipe) => some ((false, res, pipe), h)
  | some (some (status, dataLength), pipe) =>
    let h := h.release
    let res := { res with data := none, responseStatus := status }
    if status = Status.error.toByte then some ((false, res, pipe), h)
    else if status = Status.malformed.toByte then some ((false, res, pipe), h)
    else
      let res := { res with dataLength }
      let h := if 1 < dataLength.toNat then h.allocate else h
      match receiveData dataLength outcomes.tail pipe with
      | none => none
      | some (.received data pipe) => some ((true, { res with data }, pipe), h)
      | some (.aborted pipe) =>
        some ((false, { responseStatus := Status.error.toByte, data := none, dataLength := 0 },
          pipe), h.release)

def pipeSendRequest (c : PipeClient) (req : Request) (res : Response) (h : Holder)
    (header body : WriteOutcome) (receiver : Pipes → Pipes) (outcomes : Stream' ReadOutcome)
    (pipes : Pipes) : Option (PipeTestingClient.Sent × Holder) :=
  if c.mStarted then
    match PipeClient.writeRequest req header body pipes.request with
    | (false, request) => some (⟨false, res, { pipes with request }⟩, h)
    | (true, request) =>
      let pipes := receiver { pipes with request }
      (pipeResponse res h outcomes pipes.response).map fun r =>
        (⟨r.1.1, r.1.2.1, { pipes with response := r.1.2.2 }⟩, r.2)
  else some (⟨false, res, pipes⟩, h)

/-- What the client on queues makes of the buffer when the right message has come. -/
def stored (h : Holder) (buffer : Message) : Holder :=
  let h := h.release
  if buffer.getD 4 0 = Status.error.toByte then h
  else if buffer.getD 4 0 = Status.malformed.toByte then h
  else if 1 < buffer.length - 4 then h.allocate else h

def mqArrived (c : MqClient) (res : Response) (h : Holder) :
    Except Errno Message → MqProgram (Option (MqTestingClient.Sent × Holder))
  | .error _ => .done (some (⟨false, res⟩, h))
  | .ok buffer =>
    if buffer.length < 5 then .done (some (⟨false, res⟩, h))
    else if receivedPid buffer ≠ c.mReceiverId then
      .mqSend c.mMqtResponses buffer fun _ => .done none
    else .done (some (storeResponse res buffer, stored h buffer))

def mqAwait (c : MqClient) (res : Response) (h : Holder) :
    MqProgram (Option (MqTestingClient.Sent × Holder)) :=
  .mqReceive c.mMqtResponses mqMaxLength (mqArrived c res h)

def mqSendRequest (c : MqClient) (req : Request) (res : Response) (h : Holder)
    (memory : Nat → UInt8) (rounds : Nat) : MqProgram (Option (MqTestingClient.Sent × Holder)) :=
  if c.mStarted then
    (c.submitRequest req memory).bind fun sent =>
      if sent then (mqAwait c res h).loop rounds else .done (some (⟨false, res⟩, h))
  else .done (some (⟨false, res⟩, h))

section

variable (res : Response) (h : Holder)

theorem map_pipeResponse (outcomes : Stream' ReadOutcome) (pipe : List UInt8) :
    (pipeResponse res h outcomes pipe).map Prod.fst =
      PipeClient.readResponse res outcomes pipe := by
  unfold pipeResponse PipeClient.readResponse
  obtain _ | ⟨_ | ⟨status, dataLength⟩, pipe⟩ := readHeader outcomes.head pipe
  · rfl
  · rfl
  · simp only
    split_ifs with he hm
    · rfl
    · rfl
    · cases receiveData dataLength outcomes.tail pipe with
      | none => rfl
      | some d => cases d <;> rfl
    · cases receiveData dataLength outcomes.tail pipe with
      | none => rfl
      | some d => cases d <;> rfl

/-- But for the buffer it is `send_request`. -/
theorem map_pipeSendRequest (c : PipeClient) (req : Request) (header body : WriteOutcome)
    (receiver : Pipes → Pipes) (outcomes : Stream' ReadOutcome) (pipes : Pipes) :
    (pipeSendRequest c req res h header body receiver outcomes pipes).map Prod.fst =
      c.sendRequest req res header body receiver outcomes pipes := by
  unfold pipeSendRequest PipeClient.sendRequest
  split_ifs with hc
  · obtain ⟨_ | _, request⟩ := PipeClient.writeRequest req header body pipes.request
    · rfl
    · simp only
      rw [← map_pipeResponse res h]
      cases pipeResponse res h outcomes (receiver { pipes with request }).response with
      | none => rfl
      | some r => rfl
  · rfl

theorem bind_mqArrived (c : MqClient) (r : Except Errno Message) :
    (mqArrived c res h r).bind (fun r => .done (r.map Prod.fst)) = c.responseArrived res r := by
  cases r with
  | error e => rfl
  | ok buffer =>
    rw [mqArrived, MqClient.responseArrived]
    split_ifs with hl hp
    · rfl
    · rfl
    · rfl

theorem map_mqSendRequest (c : MqClient) (req : Request) (memory : Nat → UInt8) (rounds : Nat) :
    (mqSendRequest c req res h memory rounds).bind (fun r => .done (r.map Prod.fst)) =
      c.sendRequest req res memory rounds := by
  have hawait : (mqAwait c res h).bind (fun r => .done (r.map Prod.fst)) = c.awaitResponse res :=
    congrArg (Program.mqReceive c.mMqtResponses mqMaxLength) (funext (bind_mqArrived res h c))
  rw [mqSendRequest, MqClient.sendRequest]
  split_ifs with hc
  · rw [Program.bind_assoc]
    apply congrArg
    funext sent
    cases sent with
    | false => rfl
    | true =>
      rw [← hawait]
      exact Program.map_loop Prod.fst (mqAwait c res h) rounds
  · rfl

end

/-- What becomes of the response object and its buffer by a call. -/
inductive Called (res : Response) (h : Holder) : Response → Holder → Prop
  | kept : Called res h res h
  | without {res'} (hd : res'.data = none) : Called res h res' h.release
  | withData {res'} (hd : res'.data ≠ none) : Called res h res' h.release.allocate
  | aborted {res'} (hd : res'.data = none) : Called res h res' h.release.allocate.release

section

variable {res : Response} {h h' : Holder}

theorem called_pipeResponse {outcomes : Stream' ReadOutcome} {pipe : List UInt8}
    {r : Bool × Response × List UInt8} (hr : pipeResponse res h outcomes pipe = some (r, h')) :
    Called res h r.2.1 h' := by
  rw [pipeResponse] at hr
  rcases hh : readHeader outcomes.head pipe with _ | ⟨_ | ⟨status, dataLength⟩, left⟩
  · simp only [hh] at hr
    cases hr
  · simp only [hh] at hr
    obtain ⟨rfl, rfl⟩ := Prod.mk.inj (Option.some.inj hr)
    exact .kept
  · simp only [hh] at hr
    split_ifs at hr with he hm hl
    · obtain ⟨rfl, rfl⟩ := Prod.mk.inj (Option.some.inj hr)
      exact .without rfl
    · obtain ⟨rfl, rfl⟩ := Prod.mk.inj (Option.some.inj hr)
      exact .without rfl
    · cases hd : receiveData dataLength outcomes.tail left with
      | none =>
        simp only [hd] at hr
        cases hr
      | some d =>
        simp only [hd] at hr
        cases d with
        | received data pipe =>
          obtain ⟨rfl, rfl⟩ := Prod.mk.inj (Option.some.inj hr)
          have hdata := receiveData_received hd
          rw [if_pos hl] at hdata
          obtain ⟨bytes, rfl, -⟩ := hdata
          exact .withData (Option.some_ne_none bytes)
        | aborted pipe =>
          obtain ⟨rfl, rfl⟩ := Prod.mk.inj (Option.some.inj hr)
          exact .aborted rfl
    · rw [receiveData, if_neg hl] at hr
      obtain ⟨rfl, rfl⟩ := Prod.mk.inj (Option.some.inj hr)
      exact .without rfl

theorem called_stored {buffer : Message} :
    Called res h (storeResponse res buffer).res (stored h buffer) := by
  rw [storeResponse, stored]
  split_ifs with he hm hl
  · exact .without rfl
  · exact .without rfl
  · have hd : receivedData buffer = some (buffer.drop 5) := if_pos hl
    exact .withData (ne_of_eq_of_ne hd (Option.some_ne_none _))
  · have hd : receivedData buffer = none := if_neg hl
    exact .without hd

theorem called_pipeSendRequest {c : PipeClient} {req : Request} {header body : WriteOutcome}
    {receiver : Pipes → Pipes} {outcomes : Stream' ReadOutcome} {pipes : Pipes}
    {sent : PipeTestingClient.Sent}
    (hs : pipeSendRequest c req res h header body receiver outcomes pipes = some (sent, h')) :
    Called res h sent.res h' := by
  rw [pipeSendRequest] at hs
  split_ifs at hs with hc
  · rcases hw : PipeClient.writeRequest req header body pipes.request with ⟨_ | _, request⟩
    · simp only [hw] at hs
      obtain ⟨rfl, rfl⟩ := Prod.mk.inj (Option.some.inj hs)
      exact .kept
    · simp only [hw] at hs
      obtain ⟨⟨r, h''⟩, hr, he⟩ := Option.map_eq_some_iff.mp hs
      obtain ⟨rfl, rfl⟩ := Prod.mk.inj he
      exact called_pipeResponse hr
  · obtain ⟨rfl, rfl⟩ := Prod.mk.inj (Option.some.inj hs)
    exact .kept

variable {c : MqClient} {rounds : Nat} {replies : List (Reply Queue UInt8)}
  {sent : MqTestingClient.Sent}

theorem called_mqAwait
    (hs : replay replies ((mqAwait c res h).loop rounds) = some (some (sent, h'))) :
    Called res h sent.res h' := by
  induction rounds generalizing replies with
  | zero =>
    obtain ⟨-, he⟩ := replay_done hs
    cases he
  | succ rounds ih =>
    obtain ⟨r, rest, -, hs, -⟩ := replay_mqReceive hs
    cases r with
    | error e =>
      obtain ⟨-, he⟩ := replay_done hs
      obtain ⟨rfl, rfl⟩ := Prod.mk.inj (Option.some.inj he)
      exact .kept
    | ok buffer =>
      rw [mqArrived] at hs
      split_ifs at hs with hl hp
      · obtain ⟨-, he⟩ := replay_done hs
        obtain ⟨rfl, rfl⟩ := Prod.mk.inj (Option.some.inj he)
        exact .kept
      · obtain ⟨success, rest', -, hs⟩ := replay_mqSend hs
        exact ih hs
      · obtain ⟨-, he⟩ := replay_done hs
        obtain ⟨rfl, rfl⟩ := Prod.mk.inj (Option.some.inj he)
        exact called_stored

theorem called_mqSendRequest {req : Request} {memory : Nat → UInt8}
    (hs : replay replies (mqSendRequest c req res h memory rounds) = some (some (sent, h'))) :
    Called res h sent.res h' := by
  rw [mqSendRequest] at hs
  split_ifs at hs with hc
  · obtain ⟨success, rest, -, hs⟩ := replay_mqSend hs
    cases success with
    | false =>
      obtain ⟨-, he⟩ := replay_done hs
      obtain ⟨rfl, rfl⟩ := Prod.mk.inj (Option.some.inj he)
      exact .kept
    | true => exact called_mqAwait hs
  · obtain ⟨-, he⟩ := replay_done hs
    obtain ⟨rfl, rfl⟩ := Prod.mk.inj (Option.some.inj he)
    exact .kept

end

/-- A program that uses clients, with a response object and the buffers of earlier responses that
it keeps itself. -/
structure User where
  res : Response := {}
  holder : Holder := {}
  kept : List Nat := []

/-- What a program does with a response object: it sends requests through clients of both kinds,
and frees the data, or keeps them and resets the pointer. -/
inductive Step : User → User → Prop
  | pipe {u h'} (c : PipeClient) (req : Request) (header body : WriteOutcome)
    (receiver : Pipes → Pipes) (outcomes : Stream' ReadOutcome) (pipes : Pipes)
    (sent : PipeTestingClient.Sent)
    (hs : pipeSendRequest c req u.res u.holder header body receiver outcomes pipes =
      some (sent, h')) :
    Step u { u with res := sent.res, holder := h' }
  | queue {u h'} (c : MqClient) (req : Request) (memory : Nat → UInt8) (rounds : Nat)
    (replies : List (Reply Queue UInt8)) (sent : MqTestingClient.Sent)
    (hs : replay replies (mqSendRequest c req u.res u.holder memory rounds) =
      some (some (sent, h'))) :
    Step u { u with res := sent.res, holder := h' }
  | free {u} : Step u { u with res := { u.res with data := none }, holder := u.holder.release }
  | keep {u} : Step u { u with
      res := { u.res with data := none }
      holder := u.holder.reset
      kept := u.holder.data.toList ++ u.kept }

inductive Reachable : User → Prop
  | start : Reachable {}
  | step {u v} (hu : Reachable u) (hs : Step u v) : Reachable v

/-- The buffers that are not released are those that the program keeps and that of the response
object, which has data exactly if there is one. -/
structure Accounted (u : User) : Prop where
  owned : OwnsWith u.holder u.kept
  points : u.holder.data = none ↔ u.res.data = none

section

variable {u v : User}

theorem accounted_called {res' : Response} {h' : Holder} (ha : Accounted u)
    (hc : Called u.res u.holder res' h') : Accounted { u with res := res', holder := h' } := by
  have hallocated := ha.owned.release.allocate Holder.data_release
  cases hc with
  | kept => exact ha
  | without hd => exact ⟨ha.owned.release, iff_of_true Holder.data_release hd⟩
  | withData hd => exact ⟨hallocated, iff_of_false (Option.some_ne_none _) hd⟩
  | aborted hd => exact ⟨hallocated.release, iff_of_true Holder.data_release hd⟩

theorem accounted_step (ha : Accounted u) (hs : Step u v) : Accounted v := by
  cases hs with
  | pipe c req header body receiver outcomes pipes sent hs =>
    exact accounted_called ha (called_pipeSendRequest hs)
  | queue c req memory rounds replies sent hs =>
    exact accounted_called ha (called_mqSendRequest hs)
  | free => exact ⟨ha.owned.release, iff_of_true Holder.data_release rfl⟩
  | keep => exact ⟨ha.owned.reset, iff_of_true rfl rfl⟩

end

/-- Whatever is sent through clients of both kinds with one response object, and however the
calls end, each buffer is released once, but for those the program has. -/
theorem accounted_of_reachable {u : User} (hu : Reachable u) : Accounted u := by
  induction hu with
  | start => exact ⟨owns_empty, iff_of_true rfl rfl⟩
  | step hu hs ih => exact accounted_step ih hs

/-- Two bytes of data arrive over the queues. -/
theorem accounted_two_bytes : ∃ u : User, u.holder.data = some 0 ∧ Accounted u := by
  have hs : replay [.sent true, .received (.ok [0, 0, 0, 0, 0, 7, 9])]
      (mqSendRequest { mStarted := true } {} {} {} (fun _ => 0) 1) =
        some (some (⟨true, ⟨0, some [7, 9], 2⟩⟩, ({} : Holder).allocate)) := rfl
  exact ⟨_, rfl, accounted_of_reachable (.step .start (.queue _ _ _ _ _ _ hs))⟩

end VpTesting.ResponseBuffers

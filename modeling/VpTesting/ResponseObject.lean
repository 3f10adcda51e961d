import VpTesting.MqTestingClient
import VpTesting.PipeTestingClient
import VpTesting.ProgramReplies

namespace VpTesting.ResponseObject

open VpTesting.MessageQueue VpTesting.Types VpTesting.Pipe VpTesting.PipeFrames
  VpTesting.ReceiveLoop VpTesting.MqTestingCommunication VpTesting.MqTestingClient
  VpTesting.PipeTestingCommunication VpTesting.PipeTestingClient VpTesting.ProgramReplies

/-- The data are null exactly if their length is 0, and else as long as it says. -/
def Consistent (res : Response) : Prop :=
  (res.data = none ↔ res.dataLength = 0) ∧
    ∀ data, res.data = some data → data.length = res.dataLength.toNat

theorem consistent_none_iff {status : UInt8} {dataLength : UInt32} :
    Consistent ⟨status, none, dataLength⟩ ↔ dataLength = 0 := by
  constructor
  · intro hc
    exact hc.1.mp rfl
  · rintro rfl
    exact ⟨iff_of_true rfl rfl, fun data hd => nomatch hd⟩

theorem consistent_some {status : UInt8} {data : List UInt8} {dataLength : UInt32}
    (hl : data.length = dataLength.toNat) (hd : data ≠ []) :
    Consistent ⟨status, some data, dataLength⟩ := by
  have hpos := List.length_pos_iff.mpr hd
  have hne : dataLength ≠ 0 := by
    rintro rfl
    exact absurd hl (Nat.ne_of_gt hpos)
  refine ⟨iff_of_false (Option.some_ne_none data) hne, fun d hd => ?_⟩
  rwa [← Option.some.inj hd]

def Failed (status : UInt8) : Prop :=
  status = Status.error.toByte ∨ status = Status.malformed.toByte

/-- The old data are freed and null, and their length is kept; or a single byte is announced,
which the client over pipes does not look for. -/
def Lost (res : Response) (status : UInt8) (dataLength : UInt32) : Prop :=
  Failed status ∧ res.dataLength ≠ 0 ∨ ¬Failed status ∧ dataLength.toNat = 1

section

variable {res res' : Response} {outcomes : Stream' ReadOutcome} {pipe left rest : List UInt8}
  {result : Bool} {status : UInt8} {dataLength : UInt32}

theorem one_lt_of_aborted (hr : receiveData dataLength outcomes pipe = some (.aborted left)) :
    1 < dataLength.toNat := by
  unfold receiveData at hr
  split_ifs at hr with hl
  · exact hl
  · cases hr

theorem readResponse_of_failed
    (hh : readHeader outcomes.head pipe = some (some (status, dataLength), rest))
    (hf : Failed status) :
    PipeClient.readResponse res outcomes pipe =
      some (false, ⟨status, none, res.dataLength⟩, rest) := by
  simp only [PipeClient.readResponse, hh]
  by_cases he : status = Status.error.toByte
  · rw [if_pos he]
  · rw [if_neg he, if_pos (hf.resolve_left he)]

/-- The response object once the data of a response have been received. -/
def received (status : UInt8) (dataLength : UInt32) : DataResult → Response
  | .received data _ => ⟨status, data, dataLength⟩
  | .aborted _ => ⟨Status.error.toByte, none, 0⟩

theorem readResponse_of_not_failed
    (hh : readHeader outcomes.head pipe = some (some (status, dataLength), rest))
    (hf : ¬Failed status)
    (hr : PipeClient.readResponse res outcomes pipe = some (result, res', left)) :
    ∃ d, receiveData dataLength outcomes.tail rest = some d ∧
      res' = received status dataLength d := by
  obtain ⟨he, hm⟩ := not_or.mp hf
  simp only [PipeClient.readResponse, hh, if_neg he, if_neg hm] at hr
  cases hd : receiveData dataLength outcomes.tail rest with
  | none =>
    rw [hd] at hr
    cases hr
  | some d =>
    rw [hd] at hr
    refine ⟨d, rfl, ?_⟩
    cases d with
    | received data pipe => exact (Prod.mk.inj (Prod.mk.inj (Option.some.inj hr)).2).1.symm
    | aborted pipe => exact (Prod.mk.inj (Prod.mk.inj (Option.some.inj hr)).2).1.symm

/-- A single byte is announced and not received; all other data are as long as announced. -/
theorem consistent_received_iff {d : DataResult}
    (hd : receiveData dataLength outcomes pipe = some d) :
    Consistent (received status dataLength d) ↔ dataLength.toNat ≠ 1 := by
  cases d with
  | received data left =>
    have hdata := receiveData_received hd
    split_ifs at hdata with hl
    · obtain ⟨bytes, rfl, hlen⟩ := hdata
      have hne : bytes ≠ [] := List.ne_nil_of_length_pos (by omega)
      exact iff_of_true (consistent_some hlen hne) (Nat.ne_of_gt hl)
    · subst hdata
      rw [received, consistent_none_iff, ← UInt32.toNat_inj, UInt32.toNat_zero]
      omega
  | aborted left =>
    exact iff_of_true (consistent_none_iff.mpr rfl) (Nat.ne_of_gt (one_lt_of_aborted hd))

/-- What `send_request` makes of the response object once it has read a header. -/
theorem consistent_iff_of_header
    (hh : readHeader outcomes.head pipe = some (some (status, dataLength), rest))
    (hr : PipeClient.readResponse res outcomes pipe = some (result, res', left)) :
    Consistent res' ↔ ¬Lost res status dataLength := by
  by_cases hf : Failed status
  · rw [readResponse_of_failed hh hf] at hr
    obtain ⟨-, hr⟩ := Prod.mk.inj (Option.some.inj hr)
    obtain ⟨rfl, -⟩ := Prod.mk.inj hr
    rw [consistent_none_iff, Lost]
    simp only [hf, true_and, not_true_eq_false, false_and, or_false, not_not]
  · obtain ⟨d, hd, rfl⟩ := readResponse_of_not_failed hh hf hr
    rw [consistent_received_iff hd, Lost]
    simp only [hf, false_and, false_or, not_false_eq_true, true_and, ne_eq]

/-- At every exit of `readResponse`, the header being what was read of it. -/
theorem consistent_readResponse_iff (hc : Consistent res)
    (hr : PipeClient.readResponse res outcomes pipe = some (result, res', left)) :
    Consistent res' ↔ ∀ status dataLength rest,
      readHeader outcomes.head pipe = some (some (status, dataLength), rest) →
        ¬Lost res status dataLength := by
  cases hh : readHeader outcomes.head pipe with
  | none =>
    rw [PipeClient.readResponse, hh] at hr
    cases hr
  | some header =>
    obtain ⟨header, rest⟩ := header
    cases header with
    | none =>
      rw [PipeClient.readResponse, hh] at hr
      obtain ⟨-, hr⟩ := Prod.mk.inj (Option.some.inj hr)
      obtain ⟨rfl, -⟩ := Prod.mk.inj hr
      refine iff_of_true hc ?_
      rintro _ _ _ ⟨⟩
    | some header =>
      obtain ⟨status, dataLength⟩ := header
      rw [consistent_iff_of_header hh hr]
      constructor
      · rintro hn _ _ _ ⟨⟩
        exact hn
      · exact fun h => h status dataLength rest rfl

end

section

variable {c : MqClient} {res : Response}

/-- The result of `send_request` if `last` is what its last call returned. -/
def decided (c : MqClient) (res : Response) : Reply Queue UInt8 → MqTestingClient.Sent
  | .received (.ok buffer) =>
    if 5 ≤ buffer.length ∧ receivedPid buffer = c.mReceiverId then storeResponse res buffer
    else ⟨false, res⟩
  | _ => ⟨false, res⟩

/-- The loop ends with a failure, or with a message from the right receiver. -/
theorem decided_of_loop {rounds : Nat} {replies : List (Reply Queue UInt8)}
    {sent : MqTestingClient.Sent}
    (h : replay replies ((c.awaitResponse res).loop rounds) = some (some sent)) :
    ∃ before last, replies = before ++ [last] ∧ sent = decided c res last ∧
      last.Fits mqMaxLength := by
  induction rounds generalizing replies with
  | zero =>
    obtain ⟨-, he⟩ := replay_done h
    cases he
  | succ rounds ih =>
    obtain ⟨r, rest, rfl, h, hfits⟩ := replay_mqReceive h
    cases r with
    | error e =>
      obtain ⟨rfl, he⟩ := replay_done h
      obtain rfl := Option.some.inj he
      exact ⟨[], _, rfl, rfl, trivial⟩
    | ok buffer =>
      change replay rest ((c.responseArrived res (.ok buffer)).bind
        ((c.awaitResponse res).loop rounds).unlessSome) = _ at h
      by_cases hs : buffer.length < 5
      · have hp : c.responseArrived res (.ok buffer) = .done (some ⟨false, res⟩) := if_pos hs
        rw [hp] at h
        obtain ⟨rfl, he⟩ := replay_done h
        obtain rfl := Option.some.inj he
        refine ⟨[], _, rfl, ?_, hfits⟩
        rw [decided, if_neg fun hn => Nat.not_le.mpr hs hn.1]
      by_cases ho : receivedPid buffer = c.mReceiverId
      · have hp : c.responseArrived res (.ok buffer) = .done (some (storeResponse res buffer)) := by
          rw [MqClient.responseArrived, if_neg hs, if_neg (not_not.mpr ho)]
        rw [hp] at h
        obtain ⟨rfl, he⟩ := replay_done h
        obtain rfl := Option.some.inj he
        refine ⟨[], _, rfl, ?_, hfits⟩
        rw [decided, if_pos ⟨Nat.not_lt.mp hs, ho⟩]
      · have hp : c.responseArrived res (.ok buffer) =
            .mqSend c.mMqtResponses buffer fun _ => .done none := by
          rw [MqClient.responseArrived, if_neg hs, if_pos ho]
        rw [hp] at h
        obtain ⟨success, rest', rfl, h⟩ := replay_mqSend h
        obtain ⟨before, last, rfl, he, hl⟩ := ih h
        exact ⟨.received (.ok buffer) :: .sent success :: before, last, rfl, he, hl⟩

theorem decided_of_sendRequest {req : Request} {memory : Nat → UInt8} {rounds : Nat}
    {replies : List (Reply Queue UInt8)} {sent : MqTestingClient.Sent}
    (h : replay replies (c.sendRequest req res memory rounds) = some (some sent)) :
    (replies = [] ∧ sent = ⟨false, res⟩) ∨
      ∃ before last, replies = before ++ [last] ∧ sent = decided c res last ∧
        last.Fits mqMaxLength := by
  rw [MqClient.sendRequest] at h
  by_cases hs : c.mStarted = true
  · rw [if_pos hs] at h
    right
    obtain ⟨success, rest, rfl, h⟩ := replay_mqSend h
    cases success with
    | false =>
      obtain ⟨rfl, he⟩ := replay_done h
      obtain rfl := Option.some.inj he
      exact ⟨[], _, rfl, rfl, trivial⟩
    | true =>
      obtain ⟨before, last, rfl, he, hl⟩ := decided_of_loop h
      exact ⟨.sent true :: before, last, rfl, he, hl⟩
  · rw [if_neg hs] at h
    obtain ⟨rfl, he⟩ := replay_done h
    exact Or.inl ⟨rfl, Option.some.inj he⟩

/-- A message from the right receiver that says that the request failed. -/
def FailedReply (c : MqClient) (buffer : Message) : Prop :=
  5 ≤ buffer.length ∧ receivedPid buffer = c.mReceiverId ∧ Failed (buffer.getD 4 0)

theorem consistent_storeResponse_iff {buffer : Message} (hl : 5 ≤ buffer.length)
    (hm : buffer.length ≤ mqMaxLength) :
    Consistent (storeResponse res buffer).res ↔
      ¬(Failed (buffer.getD 4 0) ∧ res.dataLength ≠ 0) := by
  by_cases hf : Failed (buffer.getD 4 0)
  · have hres : (storeResponse res buffer).res = ⟨buffer.getD 4 0, none, res.dataLength⟩ := by
      rw [storeResponse]
      by_cases he : buffer.getD 4 0 = Status.error.toByte
      · rw [if_pos he]
      · rw [if_neg he, if_pos (hf.resolve_left he)]
    rw [hres, consistent_none_iff]
    simp only [hf, true_and, not_not]
  · obtain ⟨he, hm'⟩ := not_or.mp hf
    have hlen : (UInt32.ofNat (buffer.length - 1 - 4)).toNat = buffer.length - 5 := by
      have hmax : mqMaxLength = 256 := rfl
      rw [UInt32.toNat_ofNat']
      omega
    refine iff_of_true ?_ fun h => hf h.1
    rw [storeResponse, if_neg he, if_neg hm', receivedData]
    by_cases hd : 1 < buffer.length - 4
    · rw [if_pos hd]
      have hlength : (buffer.drop 5).length = buffer.length - 5 := List.length_drop
      exact consistent_some (by rw [hlength, hlen]) (List.ne_nil_of_length_pos (by omega))
    · rw [if_neg hd, consistent_none_iff, ← UInt32.toNat_inj, hlen, UInt32.toNat_zero]
      omega

/-- Only the last reply is stored in the response object. -/
theorem consistent_decided_iff (hc : Consistent res) {last : Reply Queue UInt8}
    (hl : last.Fits mqMaxLength) :
    Consistent (decided c res last).res ↔
      ∀ buffer, last = .received (.ok buffer) → FailedReply c buffer → res.dataLength = 0 := by
  cases last with
  | opened | attributes | sent => exact iff_of_true hc fun _ hb => nomatch hb
  | received r =>
    cases r with
    | error e => exact iff_of_true hc fun _ hb => nomatch hb
    | ok buffer =>
      have hall : (∀ message, Reply.received (ν := Queue) (.ok buffer) = .received (.ok message) →
          FailedReply c message → res.dataLength = 0) ↔
          (FailedReply c buffer → res.dataLength = 0) := by
        constructor
        · exact fun h => h buffer rfl
        · rintro h _ ⟨⟩
          exact h
      rw [hall, decided]
      by_cases ho : 5 ≤ buffer.length ∧ receivedPid buffer = c.mReceiverId
      · rw [if_pos ho, consistent_storeResponse_iff ho.1 hl, not_and_not_right]
        exact ⟨fun h hf => h hf.2.2, fun h hf => h ⟨ho.1, ho.2, hf⟩⟩
      · rw [if_neg ho]
        exact iff_of_true hc fun hf => absurd ⟨hf.1, hf.2.1⟩ ho

theorem consistent_of_sendRequest_iff (hc : Consistent res) {req : Request} {memory : Nat → UInt8}
    {rounds : Nat} {replies : List (Reply Queue UInt8)} {sent : MqTestingClient.Sent}
    (h : replay replies (c.sendRequest req res memory rounds) = some (some sent)) :
    Consistent sent.res ↔ ∀ buffer, replies.getLast? = some (.received (.ok buffer)) →
      FailedReply c buffer → res.dataLength = 0 := by
  obtain ⟨rfl, rfl⟩ | ⟨before, last, rfl, rfl, hl⟩ := decided_of_sendRequest h
  · exact iff_of_true hc fun _ hb => nomatch hb
  · rw [List.getLast?_concat, consistent_decided_iff hc hl]
    simp only [Option.some.injEq]

end

/-- The client over pipes has sent its request and reads this header of a response. -/
def Answered (c : PipeClient) (req : Request) (head body : WriteOutcome) (receiver : Pipes → Pipes)
    (outcomes : Stream' ReadOutcome) (pipes : Pipes) (status : UInt8) (dataLength : UInt32) :
    Prop :=
  c.mStarted = true ∧ ∃ request rest,
    PipeClient.writeRequest req head body pipes.request = (true, request) ∧
      readHeader outcomes.head (receiver { pipes with request }).response =
        some (some (status, dataLength), rest)

theorem consistent_sendRequest_iff {c : PipeClient} {req : Request} {res : Response}
    {head body : WriteOutcome} {receiver : Pipes → Pipes} {outcomes : Stream' ReadOutcome}
    {pipes : Pipes} {sent : PipeTestingClient.Sent} (hc : Consistent res)
    (h : c.sendRequest req res head body receiver outcomes pipes = some sent) :
    Consistent sent.res ↔ ∀ status dataLength,
      Answered c req head body receiver outcomes pipes status dataLength →
        ¬Lost res status dataLength := by
  rw [PipeClient.sendRequest] at h
  by_cases hs : c.mStarted = true
  · rw [if_pos hs] at h
    cases hw : PipeClient.writeRequest req head body pipes.request with
    | mk written request =>
      rw [hw] at h
      cases written with
      | false =>
        obtain rfl := Option.some.inj h
        refine iff_of_true hc ?_
        rintro _ _ ⟨-, request', rest, hw', -⟩
        rw [hw] at hw'
        cases hw'
      | true =>
        obtain ⟨⟨result, res', left⟩, hr, rfl⟩ := Option.map_eq_some_iff.mp h
        have hiff := consistent_readResponse_iff hc hr
        refine hiff.trans ⟨?_, fun ha status dataLength rest hh => ?_⟩
        · rintro ha status dataLength ⟨-, request', rest, hw', hh⟩
          rw [hw] at hw'
          cases hw'
          exact ha status dataLength rest hh
        · exact ha status dataLength ⟨hs, request, rest, hw, hh⟩
  · rw [if_neg hs] at h
    obtain rfl := Option.some.inj h
    exact iff_of_true hc fun _ _ ha => absurd ha.1 hs

/-- Over both transports the response object stays consistent exactly if it was not reused with
data for a request that failed, and no response over pipes has a single byte of data. -/
theorem consistent_iff (res : Response) (hc : Consistent res) :
    (∀ (c : PipeClient) (req : Request) (head body : WriteOutcome) (receiver : Pipes → Pipes)
        (outcomes : Stream' ReadOutcome) (pipes : Pipes) (sent : PipeTestingClient.Sent),
      c.sendRequest req res head body receiver outcomes pipes = some sent →
      (Consistent sent.res ↔ ∀ status dataLength,
        Answered c req head body receiver outcomes pipes status dataLength →
          ¬Lost res status dataLength)) ∧
    ∀ (c : MqClient) (req : Request) (memory : Nat → UInt8) (rounds : Nat)
        (replies : List (Reply Queue UInt8)) (sent : MqTestingClient.Sent),
      replay replies (c.sendRequest req res memory rounds) = some (some sent) →
      (Consistent sent.res ↔ ∀ buffer, replies.getLast? = some (.received (.ok buffer)) →
        FailedReply c buffer → res.dataLength = 0) := by
  constructor
  · exact fun _ _ _ _ _ _ _ _ h => consistent_sendRequest_iff hc h
  · exact fun _ _ _ _ _ _ h => consistent_of_sendRequest_iff hc h

/-- The response object of an earlier request that returned a byte of data. -/
def reused : Response := ⟨Status.ok.toByte, some [7], 1⟩

theorem consistent_reused : Consistent reused := consistent_some rfl (List.cons_ne_nil 7 [])

/-- Two bytes of data, and the answer with them over queues. -/
def twoBytes : Payload := ⟨[8, 9], by decide⟩

def okReplies : List (Reply Queue UInt8) :=
  [.sent true, .received (.ok ([1, 0, 0, 0] ++ Status.ok.toByte :: twoBytes.bytes))]

/-- The next request succeeds, and returns two bytes. -/
theorem reused_consistent :
    (∃ sent, PipeClient.sendRequest { mStarted := true } {} reused .full .full
        (fun pipes => { pipes with response := frame Status.ok.toByte twoBytes })
        (arrival (Stream'.const 0)) {} = some sent ∧
          sent.res.data = some twoBytes.bytes ∧ Consistent sent.res) ∧
      ∃ sent, replay okReplies (MqClient.sendRequest { mStarted := true, mReceiverId := 1 } {}
        reused (fun _ => 0) 1) = some (some sent) ∧
          sent.res.data = some twoBytes.bytes ∧ Consistent sent.res := by
  have hi := consistent_iff reused consistent_reused
  have hok : ¬Failed Status.ok.toByte := not_or.mpr ⟨by decide, by decide⟩
  constructor
  · have hdata : receiveData twoBytes.length (arrival (Stream'.const 0)).tail
        (twoBytes.bytes ++ []) = _ :=
      receiveData_payload (Stream'.const 0) twoBytes [] (by decide)
    have hread : PipeClient.readResponse reused _ _ = _ :=
      PipeClient.readResponse_received (whole_arrival (Stream'.const 0)) hdata
    have hsent : PipeClient.sendRequest { mStarted := true } {} reused .full .full
        (fun pipes => { pipes with response := frame Status.ok.toByte twoBytes })
        (arrival (Stream'.const 0)) {} = some ⟨true,
          ⟨Status.ok.toByte, some twoBytes.bytes, 2⟩, { request := [0, 0, 0, 0, 0] }⟩ := by
      rw [List.append_nil] at hread
      simp only [PipeClient.sendRequest, if_true, hread]
      rfl
    refine ⟨_, hsent, rfl, (hi.1 _ _ _ _ _ _ _ _ hsent).mpr ?_⟩
    rintro status dataLength ⟨-, request, rest, -, hh⟩ hl
    have hheader := readHeader_frame (whole_arrival (Stream'.const 0)) Status.ok.toByte twoBytes []
    have he := (Prod.mk.inj (Option.some.inj (hheader.symm.trans hh))).1
    obtain ⟨rfl, rfl⟩ := Prod.mk.inj (Option.some.inj he)
    obtain ⟨hf, -⟩ | ⟨-, hone⟩ := hl
    · exact hok hf
    · exact absurd hone (by decide)
  · have hsent : replay okReplies (MqClient.sendRequest { mStarted := true, mReceiverId := 1 } {}
        reused (fun _ => 0) 1) = some (some _) := rfl
    refine ⟨_, hsent, rfl, (hi.2 _ _ _ _ _ _ hsent).mpr ?_⟩
    rintro buffer ⟨⟩ hf
    exact absurd hf.2.2 hok

/-- The answer to a malformed request. -/
def malformedFrame (pipes : Pipes) : Pipes :=
  { pipes with response := pipes.response ++ frame Status.malformed.toByte Payload.empty }

theorem reused_not_consistent :
    Consistent reused ∧ ∃ sent,
      PipeClient.sendRequest { mStarted := true } {} reused .full .full malformedFrame
        (Stream'.const (.data 4)) {} = some sent ∧ ¬Consistent sent.res := by
  refine ⟨consistent_reused, _, rfl, fun hc => ?_⟩
  have hkept : Consistent ⟨Status.malformed.toByte, none, 1⟩ := hc
  exact absurd (consistent_none_iff.mp hkept) (by decide)

end VpTesting.ResponseObject

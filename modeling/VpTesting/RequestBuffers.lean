import VpTesting.BufferLedger
import VpTesting.MqTestingCommunication
import VpTesting.PipeRequests
import VpTesting.ProgramReplies

namespace VpTesting.RequestBuffers

open VpTesting.Types VpTesting.Pipe VpTesting.PipeFrames VpTesting.ReceiveLoop
  VpTesting.PipeTestingCommunication VpTesting.PipeRequests VpTesting.MessageQueue
  VpTesting.MqTestingCommunication VpTesting.ProgramReplies VpTesting.BufferLedger

/-- A call on pipes: what its reads meet with, and what is in the request pipe. -/
structure PipeCall where
  outcomes : Stream' ReadOutcome
  pipe : List UInt8

/-- `receive_request` on pipes, with the buffer of the current request. The pointer is reset
with the request, before it is tested. -/
def pipeReceive (c : PipeCommunication) (h : Holder) (call : PipeCall) :
    Option (Received × Holder) :=
  if c.mStarted then
    match readHeader call.outcomes.head call.pipe with
    | none => none
    | some (none, pipe) => some (⟨false, c, pipe⟩, h)
    | some (some (command, dataLength), pipe) =>
      let req : Request := { requestCommand := command, data := none, dataLength }
      let h := h.reset.release
      let h := if 1 < dataLength.toNat then h.allocate else h
      match receiveData dataLength call.outcomes.tail pipe with
      | none => none
      | some (.received data pipe) =>
        some (⟨true, { c with mCurrentReq := { req with data } }, pipe⟩, h)
      | some (.aborted pipe) =>
        some (⟨false, { c with mCurrentReq := { req with dataLength := 0 } }, pipe⟩, h.release)
  else some (⟨false, c, call.pipe⟩, h)

/-- The same behind `mq_receive`. Here the buffer is released before the request is reset. -/
def mqArrived (c : MqCommunication) (h : Holder) :
    Except Errno Message → MqProgram ((Bool × MqCommunication) × Holder)
  | .error _ => .done ((false, c), h)
  | .ok buffer =>
    if buffer.length < 5 then .done ((false, c), h)
    else if receivedPid buffer ≠ 0 ∧ receivedPid buffer ≠ c.pid then
      .mqSend c.mMqtRequests buffer fun _ => .done ((false, c), h)
    else
      let h := h.release.reset
      let h := if 1 < buffer.length - 4 then h.allocate else h
      .done ((true, { c with mCurrentReq := receivedRequest buffer }), h)

def mqReceive (c : MqCommunication) (h : Holder) : MqProgram ((Bool × MqCommunication) × Holder) :=
  if c.mStarted then .mqReceive c.mMqtRequests mqMaxLength (mqArrived c h)
  else .done ((false, c), h)

section

variable {c : PipeCommunication} {h : Holder} {call : PipeCall}

theorem pipeReceive_stopped (hc : ¬c.mStarted = true) :
    pipeReceive c h call = some (⟨false, c, call.pipe⟩, h) := by
  rw [pipeReceive, if_neg hc]

theorem pipeReceive_blocked (hc : c.mStarted = true)
    (hh : readHeader call.outcomes.head call.pipe = none) : pipeReceive c h call = none := by
  simp only [pipeReceive, if_pos hc, hh]

theorem pipeReceive_failed (hc : c.mStarted = true) {left : List UInt8}
    (hh : readHeader call.outcomes.head call.pipe = some (none, left)) :
    pipeReceive c h call = some (⟨false, c, left⟩, h) := by
  simp only [pipeReceive, if_pos hc, hh]

end

theorem map_pipeReceive (c : PipeCommunication) (h : Holder) (call : PipeCall) :
    (pipeReceive c h call).map Prod.fst = c.receiveRequest call.outcomes call.pipe := by
  unfold pipeReceive PipeCommunication.receiveRequest
  by_cases hc : c.mStarted = true
  · rw [if_pos hc, if_pos hc]
    obtain _ | ⟨_ | ⟨command, dataLength⟩, pipe⟩ := readHeader call.outcomes.head call.pipe
    · rfl
    · rfl
    · simp only
      cases receiveData dataLength call.outcomes.tail pipe with
      | none => rfl
      | some d => cases d <;> rfl
  · rw [if_neg hc, if_neg hc]
    rfl

theorem bind_mqArrived (c : MqCommunication) (h : Holder) (r : Except Errno Message) :
    (mqArrived c h r).bind (fun r => .done r.1) = c.requestArrived r := by
  cases r with
  | error e => rfl
  | ok buffer =>
    rw [mqArrived, MqCommunication.requestArrived]
    by_cases hl : buffer.length < 5
    · rw [if_pos hl, if_pos hl, Program.bind]
    · rw [if_neg hl, if_neg hl]
      by_cases hp : receivedPid buffer ≠ 0 ∧ receivedPid buffer ≠ c.pid
      · rw [if_pos hp, if_pos hp, Program.bind]
        rfl
      · rw [if_neg hp, if_neg hp, Program.bind]

theorem bind_mqReceive (c : MqCommunication) (h : Holder) :
    (mqReceive c h).bind (fun r => .done r.1) = c.receiveRequest := by
  rw [mqReceive, MqCommunication.receiveRequest]
  by_cases hc : c.mStarted = true
  · rw [if_pos hc, if_pos hc, Program.bind]
    exact congrArg _ (funext (bind_mqArrived c h))
  · rw [if_neg hc, if_neg hc, Program.bind]

theorem map_mqReceive (c : MqCommunication) (h : Holder) (replies : List (Reply Queue UInt8)) :
    (replay replies (mqReceive c h)).map Prod.fst = replay replies c.receiveRequest := by
  rw [← bind_mqReceive c h, replay_map]

/-- Whether the request has data is whether the pointer points to a buffer. -/
def Points (req : Request) (h : Holder) : Prop := h.data = none ↔ req.data = none

/-- What becomes of a null pointer while the data of a request are received. -/
inductive Taken (h : Holder) : Holder → Prop
  | without : Taken h h
  | withData : Taken h h.allocate
  | aborted : Taken h h.allocate.release

section

variable {h h' : Holder}

theorem Taken.valid (ht : Taken h h') (hv : h.Valid) : h'.Valid := by
  cases ht with
  | without => exact hv
  | withData => exact hv.allocate
  | aborted => exact hv.allocate.release

/-- Nothing is lost that was not lost before. -/
theorem Taken.accounted_taken_iff (ht : Taken h h') (hd : h.data = none) :
    h'.Accounted ↔ h.Accounted := by
  constructor
  · contrapose
    intro ha
    cases ht with
    | without => exact ha
    | withData => exact Holder.not_accounted_allocate ha
    | aborted => exact Holder.not_accounted_release (Holder.not_accounted_allocate ha)
  · intro ha
    cases ht with
    | without => exact ha
    | withData => exact ha.allocate hd
    | aborted => exact (ha.allocate hd).release

end

/-- A call on pipes gets as far as the header of a request. -/
def ReadsHeader (c : PipeCommunication) (call : PipeCall) : Prop :=
  c.mStarted = true ∧
    ∃ header left, readHeader call.outcomes.head call.pipe = some (some header, left)

section

variable {c : PipeCommunication} {h h' : Holder} {call : PipeCall} {a : Received}

theorem pipeReceive_header {command : UInt8} {dataLength : UInt32} {left : List UInt8}
    (hc : c.mStarted = true)
    (hh : readHeader call.outcomes.head call.pipe = some (some (command, dataLength), left))
    (hr : pipeReceive c h call = some (a, h')) :
    Taken h.reset.release h' ∧ Points a.communication.mCurrentReq h' := by
  simp only [pipeReceive, if_pos hc, hh] at hr
  by_cases hl : 1 < dataLength.toNat
  · rw [if_pos hl] at hr
    cases hd : receiveData dataLength call.outcomes.tail left with
    | none =>
      rw [hd] at hr
      cases hr
    | some d =>
      rw [hd] at hr
      cases d with
      | received data pipe =>
        obtain ⟨rfl, rfl⟩ := Prod.mk.inj (Option.some.inj hr)
        have hdata := receiveData_received hd
        rw [if_pos hl] at hdata
        obtain ⟨bytes, rfl, -⟩ := hdata
        exact ⟨.withData, iff_of_false (Option.some_ne_none _) (Option.some_ne_none bytes)⟩
      | aborted pipe =>
        obtain ⟨rfl, rfl⟩ := Prod.mk.inj (Option.some.inj hr)
        exact ⟨.aborted, iff_of_true Holder.data_release rfl⟩
  · rw [if_neg hl, receiveData, if_neg hl] at hr
    obtain ⟨rfl, rfl⟩ := Prod.mk.inj (Option.some.inj hr)
    exact ⟨.without, iff_of_true Holder.data_release rfl⟩

theorem pipeReceive_cases (hr : pipeReceive c h call = some (a, h')) :
    (¬ReadsHeader c call ∧ a.communication = c ∧ h' = h) ∨
      (ReadsHeader c call ∧ Taken h.reset.release h' ∧
        Points a.communication.mCurrentReq h') := by
  by_cases hc : c.mStarted = true
  · rcases hh : readHeader call.outcomes.head call.pipe with _ | ⟨_ | header, left⟩
    · rw [pipeReceive_blocked hc hh] at hr
      cases hr
    · rw [pipeReceive_failed hc hh] at hr
      obtain ⟨rfl, rfl⟩ := Prod.mk.inj (Option.some.inj hr)
      refine Or.inl ⟨?_, rfl, rfl⟩
      rintro ⟨-, header, left', hh'⟩
      rw [hh] at hh'
      cases hh'
    · exact Or.inr ⟨⟨hc, header, left, hh⟩, pipeReceive_header hc hh hr⟩
  · rw [pipeReceive_stopped hc] at hr
    obtain ⟨rfl, rfl⟩ := Prod.mk.inj (Option.some.inj hr)
    exact Or.inl ⟨fun hread => hc hread.1, rfl, rfl⟩

end

section

variable {c : MqCommunication} {h : Holder} {r : Except Errno Message}
  {replies : List (Reply Queue UInt8)} {v : (Bool × MqCommunication) × Holder}

theorem mqArrived_cases (hr : replay replies (mqArrived c h r) = some v) :
    (v.1.2.mCurrentReq = c.mCurrentReq ∧ v.2 = h) ∨
      (Taken h.release.reset v.2 ∧ Points v.1.2.mCurrentReq v.2) := by
  cases r with
  | error e =>
    obtain ⟨-, rfl⟩ := replay_done hr
    exact Or.inl ⟨rfl, rfl⟩
  | ok buffer =>
    rw [mqArrived] at hr
    split_ifs at hr with hl hp hd
    · obtain ⟨-, rfl⟩ := replay_done hr
      exact Or.inl ⟨rfl, rfl⟩
    · obtain ⟨_, rest, -, hr⟩ := replay_mqSend hr
      obtain ⟨-, rfl⟩ := replay_done hr
      exact Or.inl ⟨rfl, rfl⟩
    · have hdata : receivedData buffer = some (buffer.drop 5) := if_pos hd
      obtain ⟨-, rfl⟩ := replay_done hr
      refine Or.inr ⟨.withData, iff_of_false (Option.some_ne_none _) ?_⟩
      exact ne_of_eq_of_ne hdata (Option.some_ne_none _)
    · have hdata : receivedData buffer = none := if_neg hd
      obtain ⟨-, rfl⟩ := replay_done hr
      exact Or.inr ⟨.without, iff_of_true rfl hdata⟩

theorem mqReceive_cases (hr : replay replies (mqReceive c h) = some v) :
    (v.1.2.mCurrentReq = c.mCurrentReq ∧ v.2 = h) ∨
      (Taken h.release.reset v.2 ∧ Points v.1.2.mCurrentReq v.2) := by
  rw [mqReceive] at hr
  split_ifs at hr with hc
  · obtain ⟨_, rest, -, hr, -⟩ := replay_mqReceive hr
    exact mqArrived_cases hr
  · obtain ⟨-, rfl⟩ := replay_done hr
    exact Or.inl ⟨rfl, rfl⟩

end

/-- The buffer of the current request can be released, and the request tells if there is one. -/
structure Owned (req : Request) (h : Holder) : Prop where
  valid : h.Valid
  points : Points req h

/-- No buffer is released twice or without being one, and the current request's is the only one
that is not released. -/
structure ReleasedOnce (h : Holder) : Prop where
  sound : h.ledger.Sound
  current : h.Accounted

theorem owned_empty : Owned {} {} := ⟨Holder.valid_empty, iff_of_true rfl rfl⟩

def pipeCall (s : PipeCommunication × Holder) (call : PipeCall) :
    Option (PipeCommunication × Holder) :=
  (pipeReceive s.1 s.2 call).map fun r => (r.1.communication, r.2)

/-- A call on queues is given by the replies of their operations. -/
def mqCall (s : MqCommunication × Holder) (replies : List (Reply Queue UInt8)) :
    Option (MqCommunication × Holder) :=
  (replay replies (mqReceive s.1 s.2)).map fun r => (r.1.2, r.2)

/-- Some calls on a new object; `none` if one of them does not return. -/
def pipeRun (started : Bool) (calls : List PipeCall) : Option (PipeCommunication × Holder) :=
  calls.foldlM pipeCall ({ mStarted := started }, {})

def mqRun (pid : Pid) (mMqtRequests mMqtResponses : Mqd) (mStarted : Bool)
    (calls : List (List (Reply Queue UInt8))) : Option (MqCommunication × Holder) :=
  calls.foldlM mqCall ({ pid, mMqtRequests, mMqtResponses, mStarted }, {})

/-- No call of a run reads the header of a request while the request before has data. -/
def NeverOverwrites : PipeCommunication → List PipeCall → Prop
  | _, [] => True
  | c, call :: calls => (ReadsHeader c call → c.mCurrentReq.data = none) ∧
      ∀ a, c.receiveRequest call.outcomes call.pipe = some a → NeverOverwrites a.communication calls

section

variable {s t : PipeCommunication × Holder} {call : PipeCall}

theorem owned_pipeCall (ho : Owned s.1.mCurrentReq s.2) (ht : pipeCall s call = some t) :
    Owned t.1.mCurrentReq t.2 := by
  obtain ⟨⟨a, h'⟩, hr, rfl⟩ := Option.map_eq_some_iff.mp ht
  obtain ⟨-, hc, rfl⟩ | ⟨-, htaken, hp⟩ := pipeReceive_cases hr
  · simp only [hc]
    exact ho
  · exact ⟨htaken.valid ho.valid.reset.release, hp⟩

/-- The buffer is lost if and only if its request is replaced. -/
theorem accounted_pipeCall (ho : Owned s.1.mCurrentReq s.2) (ha : s.2.Accounted)
    (ht : pipeCall s call = some t) :
    t.2.Accounted ↔ (ReadsHeader s.1 call → s.1.mCurrentReq.data = none) := by
  obtain ⟨⟨a, h'⟩, hr, rfl⟩ := Option.map_eq_some_iff.mp ht
  obtain ⟨hn, -, rfl⟩ | ⟨hh, htaken, -⟩ := pipeReceive_cases hr
  · exact iff_of_true ha fun hh => absurd hh hn
  · have hp : s.2.data = none ↔ s.1.mCurrentReq.data = none := ho.points
    rw [forall_prop_of_true hh, ← hp, ← Holder.accounted_reset_iff ho.valid ha]
    rw [Holder.release_of_null Holder.data_reset] at htaken
    exact htaken.accounted_taken_iff Holder.data_reset

theorem not_accounted_pipeCall (ha : ¬s.2.Accounted) (ht : pipeCall s call = some t) :
    ¬t.2.Accounted := by
  obtain ⟨⟨a, h'⟩, hr, rfl⟩ := Option.map_eq_some_iff.mp ht
  obtain ⟨-, -, rfl⟩ | ⟨-, htaken, -⟩ := pipeReceive_cases hr
  · exact ha
  · rw [htaken.accounted_taken_iff Holder.data_release]
    exact Holder.not_accounted_release (Holder.not_accounted_reset ha)

theorem receiveRequest_of_pipeCall (ht : pipeCall s call = some t) :
    ∃ a, s.1.receiveRequest call.outcomes call.pipe = some a ∧ a.communication = t.1 := by
  obtain ⟨⟨a, h'⟩, hr, rfl⟩ := Option.map_eq_some_iff.mp ht
  refine ⟨a, ?_, rfl⟩
  rw [← map_pipeReceive s.1 s.2 call, hr]
  rfl

/-- On pipes, a run keeps account of its buffers exactly if it never overwrites. -/
theorem accounted_pipeRun {calls : List PipeCall} (ho : Owned s.1.mCurrentReq s.2)
    (ha : s.2.Accounted) (ht : calls.foldlM pipeCall s = some t) :
    t.2.Accounted ↔ NeverOverwrites s.1 calls := by
  induction calls generalizing s with
  | nil =>
    obtain rfl := Option.some.inj ht
    exact iff_of_true ha trivial
  | cons call calls ih =>
    obtain ⟨u, hu, ht⟩ := Option.bind_eq_some_iff.mp ht
    obtain ⟨a, hr, hc⟩ := receiveRequest_of_pipeCall hu
    have hcall := accounted_pipeCall ho ha hu
    rw [NeverOverwrites, ← hcall]
    by_cases hacc : u.2.Accounted
    · rw [ih (owned_pipeCall ho hu) hacc ht]
      constructor
      · intro hn
        refine ⟨hacc, fun b hb => ?_⟩
        obtain rfl := Option.some.inj (hr.symm.trans hb)
        rwa [hc]
      · rintro ⟨-, hn⟩
        exact hc ▸ hn a hr
    · refine iff_of_false ?_ fun hn => hacc hn.1
      exact foldlM_keeps (P := fun s : PipeCommunication × Holder => ¬s.2.Accounted)
        (fun _ _ _ ha hs => not_accounted_pipeCall ha hs) hacc ht

end

section

variable {s t : MqCommunication × Holder} {replies : List (Reply Queue UInt8)}

/-- Every call of `receive_request` on queues that returns is a call of a run. -/
theorem exists_mqCall {schedule : List Bool} {q q' : Queue → List Message} {result : Bool}
    {c : MqCommunication} (hq : Short mqAttr q)
    (hrun : s.1.receiveRequest.run mqAttr schedule q = some ((result, c), q')) :
    ∃ replies h, mqCall s replies = some (c, h) := by
  obtain ⟨replies, hr⟩ := replay_of_run hq hrun
  rw [← map_mqReceive s.1 s.2] at hr
  obtain ⟨⟨r, h⟩, hv, rfl⟩ := Option.map_eq_some_iff.mp hr
  refine ⟨replies, h, ?_⟩
  rw [mqCall, hv]
  rfl

/-- On queues, every call keeps account of the buffers. -/
theorem accounted_mqCall (hs : Owned s.1.mCurrentReq s.2 ∧ s.2.Accounted)
    (ht : mqCall s replies = some t) : Owned t.1.mCurrentReq t.2 ∧ t.2.Accounted := by
  obtain ⟨ho, ha⟩ := hs
  obtain ⟨v, hr, rfl⟩ := Option.map_eq_some_iff.mp ht
  obtain ⟨hreq, hh⟩ | ⟨htaken, hp⟩ := mqReceive_cases hr
  · simp only [hreq, hh]
    exact ⟨ho, ha⟩
  · have hreset : s.2.release.reset.Accounted :=
      (Holder.accounted_reset_iff ho.valid.release ha.release).mpr Holder.data_release
    refine ⟨⟨htaken.valid ho.valid.release.reset, hp⟩, ?_⟩
    exact (htaken.accounted_taken_iff Holder.data_reset).mpr hreset

end

/-- On queues, every run releases each buffer once but for that of the last request, and on pipes
a run does so exactly if it never overwrites. -/
theorem releasedOnce_iff (started : Bool) (pid : Pid) (requests responses : Mqd) :
    (∀ calls c h, pipeRun started calls = some (c, h) →
      (ReleasedOnce h ↔ NeverOverwrites { mStarted := started } calls)) ∧
    ∀ calls c h, mqRun pid requests responses started calls = some (c, h) → ReleasedOnce h := by
  constructor
  · intro calls c h hrun
    have ho : Owned c.mCurrentReq h := foldlM_keeps
      (P := fun s : PipeCommunication × Holder => Owned s.1.mCurrentReq s.2)
      (fun _ _ _ ho ht => owned_pipeCall ho ht) owned_empty hrun
    rw [← accounted_pipeRun owned_empty Holder.accounted_empty hrun]
    exact ⟨ReleasedOnce.current, fun ha => ⟨ho.valid.sound, ha⟩⟩
  · intro calls c h hrun
    have hk : Owned c.mCurrentReq h ∧ h.Accounted := foldlM_keeps
      (P := fun s : MqCommunication × Holder => Owned s.1.mCurrentReq s.2 ∧ s.2.Accounted)
      (fun _ _ _ hs ht => accounted_mqCall hs ht) ⟨owned_empty, Holder.accounted_empty⟩ hrun
    exact ⟨hk.1.valid.sound, hk.2⟩

/-- The frame of one request is in the pipe, and arrives. -/
def frameCall (r : SentRequest) : PipeCall where
  outcomes := arrival (Stream'.const 0)
  pipe := r.frame

theorem pipeCall_frame {r : SentRequest} (hl : 1 < r.payload.bytes.length) (mCurrentReq : Request)
    (h : Holder) :
    pipeCall ({ mStarted := true, mCurrentReq }, h) (frameCall r) =
      some ({ mStarted := true, mCurrentReq := r.request }, h.reset.release.allocate) := by
  have hne : r.payload.bytes.length ≠ 1 := by omega
  have hlen : 1 < r.payload.length.toNat := by rwa [Payload.toNat_length]
  have hh := readHeader_frame (whole_arrival (Stream'.const 0)) r.command.toByte r.payload []
  have hd : receiveData r.payload.length (arrival (Stream'.const 0)).tail (r.payload.bytes ++ []) =
      _ := receiveData_payload (Stream'.const 0) r.payload [] hne
  rw [List.append_nil] at hh
  simp only [pipeCall, pipeReceive, frameCall, SentRequest.frame, if_true, hh, hd, if_pos hlen]
  rfl

/-- Every request with data that comes in over pipes leaves a buffer, and none is released. -/
theorem foldlM_frames {reqs : List SentRequest} (hl : ∀ r ∈ reqs, 1 < r.payload.bytes.length)
    (mCurrentReq : Request) (h : Holder) :
    ∃ s, (reqs.map frameCall).foldlM pipeCall ({ mStarted := true, mCurrentReq }, h) = some s ∧
      s.2.ledger = { h.ledger with created := h.ledger.created + reqs.length } := by
  induction reqs generalizing mCurrentReq h with
  | nil => exact ⟨_, rfl, rfl⟩
  | cons r reqs ih =>
    obtain ⟨hr, hl⟩ := List.forall_mem_cons.mp hl
    obtain ⟨s, hs, hledger⟩ := ih hl r.request h.reset.release.allocate
    refine ⟨s, ?_, ?_⟩
    · rw [List.map_cons, List.foldlM_cons, pipeCall_frame hr]
      exact hs
    · rw [hledger, Holder.release_of_null Holder.data_reset, List.length_cons, ← Nat.add_assoc,
        Nat.add_right_comm]
      rfl

/-- SET_BREAKPOINT for a symbol of one letter. -/
def breakpointRequest : SentRequest where
  command := .setBreakpoint
  payload := ⟨[0, 65], by decide⟩

/-- SET_BREAKPOINT comes in over the pipes, and over a queue. -/
theorem releasedOnce_of_breakpoint :
    (∃ c h, pipeRun true [frameCall breakpointRequest] = some (c, h) ∧
      c.mCurrentReq = breakpointRequest.request ∧ ReleasedOnce h) ∧
    ∃ replies c h, mqRun 1 (some { queue := .requests, access := .readWrite })
        (some { queue := .responses, access := .writeOnly }) true [replies] = some (c, h) ∧
      c.mCurrentReq = breakpointRequest.request ∧ ReleasedOnce h := by
  constructor
  · have hrun : pipeRun true [frameCall breakpointRequest] =
        some ({ mStarted := true, mCurrentReq := breakpointRequest.request },
          { data := some 0, ledger := { created := 1 } }) := by
      rw [pipeRun, List.foldlM_cons, pipeCall_frame (by decide)]
      rfl
    refine ⟨_, _, hrun, rfl, ((releasedOnce_iff true 0 none none).1 _ _ _ hrun).mpr ?_⟩
    exact ⟨fun _ => rfl, fun _ _ => trivial⟩
  · let q : Queue → List Message
      | .requests => [[1, 0, 0, 0, Command.setBreakpoint.toByte, 0, 65]]
      | .responses => []
    have hq : Short mqAttr q := by
      intro n message hm
      cases n with
      | requests =>
        obtain rfl := List.mem_singleton.mp hm
        decide
      | responses => cases hm
    let c := MqCommunication.listening 1 {}
    have harrived : c.receiveRequest.run mqAttr [false] q = some ((true, _), _) := rfl
    obtain ⟨replies, h, hcall⟩ := exists_mqCall (s := (c, {})) hq harrived
    have hrun := congrArg (Option.bind · pure) hcall
    exact ⟨replies, _, h, hrun, rfl, (releasedOnce_iff true 1 _ _).2 [replies] _ _ hrun⟩

/-- The buffer of the first request is neither released nor that of the second. -/
theorem breakpoint_buffer_lost : ∃ c h,
    pipeRun true [frameCall breakpointRequest, frameCall breakpointRequest] = some (c, h) ∧
      ¬ReleasedOnce h := by
  have hl : ∀ r ∈ [breakpointRequest, breakpointRequest], 1 < r.payload.bytes.length := by decide
  obtain ⟨⟨c, h⟩, hrun, hledger⟩ := foldlM_frames hl {} {}
  refine ⟨c, h, hrun, fun hr => ?_⟩
  have h0 : h.data = some 0 := hr.current 0 (hledger ▸ by decide)
  have h1 : h.data = some 1 := hr.current 1 (hledger ▸ by decide)
  rw [h0] at h1
  cases h1

end VpTesting.RequestBuffers

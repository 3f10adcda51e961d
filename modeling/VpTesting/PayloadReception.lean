import VpTesting.PipeReplies
import VpTesting.ResponseObject

namespace VpTesting.PayloadReception

open VpTesting.ByteMemory VpTesting.Types VpTesting.Pipe VpTesting.PipeFrames
  VpTesting.ReceiveLoop VpTesting.PipeTestingCommunication VpTesting.PipeTestingClient
  VpTesting.PipeReplies VpTesting.ResponseObject

/-- How many bytes of a stream of that length the first `n` reads bring. -/
def brought (length : Nat) (outcomes : Stream' ReadOutcome) (n : Nat) : Nat :=
  min ((outcomes.take n).map arriving).sum length

def failed (outcomes : Stream' ReadOutcome) (n : Nat) : Nat :=
  ((outcomes.take n).map failures).sum

/-- Every read made for the bytes needed returns: one that returns data finds a byte. -/
def Returns (errorCount needed length : Nat) (outcomes : Stream' ReadOutcome) : Prop :=
  ∀ n more, outcomes.get n = .data more → errorCount + failed outcomes n < pipeReadErrorMax →
    brought length outcomes n < needed → brought length outcomes n < length

/-- The bytes needed arrive before the last failing or empty read that is tolerated. -/
def Arrives (errorCount needed length : Nat) (outcomes : Stream' ReadOutcome) : Prop :=
  ∃ n, needed ≤ brought length outcomes n ∧ errorCount + failed outcomes n < pipeReadErrorMax

section

variable {errorCount needed length more n : Nat} {outcomes : Stream' ReadOutcome}

theorem brought_zero : brought length outcomes 0 = 0 := Nat.zero_min length

theorem brought_succ : brought length outcomes (n + 1) =
    min (arriving outcomes.head + ((outcomes.tail.take n).map arriving).sum) length := by
  rw [brought, sum_take_succ]

theorem failed_succ :
    failed outcomes (n + 1) = failures outcomes.head + failed outcomes.tail n := by
  rw [failed, sum_take_succ, failed]

/-- With enough bytes in the stream, every read returns. -/
theorem returns_of_le (hl : needed ≤ length) : Returns errorCount needed length outcomes :=
  fun _ _ _ _ hb => Nat.lt_of_lt_of_le hb hl

theorem arrives_zero (he : errorCount < pipeReadErrorMax) : Arrives errorCount 0 length outcomes :=
  ⟨0, Nat.zero_le _, he⟩

theorem brought_of_failure (hf : failures outcomes.head = 1) :
    brought length outcomes (n + 1) = brought length outcomes.tail n := by
  rw [brought_succ, arriving_of_failure hf, Nat.zero_add, brought]

/-- A failing read brings nothing, and one failure less is tolerated. -/
theorem arrives_of_failure (hf : failures outcomes.head = 1) (hn : 0 < needed) :
    Arrives errorCount needed length outcomes ↔
      Arrives (errorCount + 1) needed length outcomes.tail := by
  constructor
  · rintro ⟨n, hb, he⟩
    cases n with
    | zero =>
      rw [brought_zero] at hb
      omega
    | succ n =>
      rw [brought_of_failure hf] at hb
      rw [failed_succ, hf] at he
      exact ⟨n, hb, by omega⟩
  · rintro ⟨n, hb, he⟩
    refine ⟨n + 1, ?_, ?_⟩
    · rwa [brought_of_failure hf]
    · rw [failed_succ, hf]
      omega

theorem Returns.of_failure (hr : Returns errorCount needed length outcomes)
    (hf : failures outcomes.head = 1) :
    Returns (errorCount + 1) needed length outcomes.tail := by
  intro n more ho he hb
  rw [← brought_of_failure hf] at hb ⊢
  apply hr (n + 1) more ho ?_ hb
  rw [failed_succ, hf]
  omega

/-- What a read returns is taken from what is needed and from the stream. -/
theorem le_brought_iff (ho : outcomes.head = .data more) {k : Nat}
    (hk : k = min (min (more + 1) needed) length) :
    needed ≤ brought length outcomes (n + 1) ↔
      needed - k ≤ brought (length - k) outcomes.tail n := by
  have ha := arriving_of_data ho
  rw [brought_succ, ha, brought]
  omega

theorem arrives_of_data (ho : outcomes.head = .data more) {k : Nat}
    (hk : k = min (min (more + 1) needed) length) (hn : 0 < needed) :
    Arrives errorCount needed length outcomes ↔
      Arrives errorCount (needed - k) (length - k) outcomes.tail := by
  have hf := failures_of_data ho
  constructor
  · rintro ⟨n, hb, he⟩
    cases n with
    | zero =>
      rw [brought_zero] at hb
      omega
    | succ n =>
      rw [failed_succ, hf, Nat.zero_add] at he
      exact ⟨n, (le_brought_iff ho hk).mp hb, he⟩
  · rintro ⟨n, hb, he⟩
    refine ⟨n + 1, (le_brought_iff ho hk).mpr hb, ?_⟩
    rwa [failed_succ, hf, Nat.zero_add]

theorem Returns.of_data (hr : Returns errorCount needed length outcomes)
    (ho : outcomes.head = .data more) {k : Nat} (hk : k = min (min (more + 1) needed) length) :
    Returns errorCount (needed - k) (length - k) outcomes.tail := by
  have hf := failures_of_data ho
  have ha := arriving_of_data ho
  intro n more' ho' he hb
  have hlt : brought length outcomes (n + 1) < needed := by
    rw [← Nat.not_le, le_brought_iff ho hk]
    exact Nat.not_le.mpr hb
  have hlen : brought length outcomes (n + 1) < length := by
    apply hr (n + 1) more' ho' ?_ hlt
    rwa [failed_succ, hf, Nat.zero_add]
  rw [brought_succ, ha] at hlt hlen
  rw [brought]
  omega

theorem Returns.head_data (hr : Returns errorCount needed length outcomes)
    (ho : outcomes.head = .data more) (he : errorCount < pipeReadErrorMax) (hn : 0 < needed) :
    0 < length := by
  have hlt := hr 0 more ho he
  rw [brought_zero] at hlt
  exact hlt hn

/-- A read of data takes its bytes from the front of the stream. -/
theorem receiveStep_stream {done old stream : List UInt8} (ho : outcomes.head = .data more)
    (hs : 0 < stream.length) (hn : 0 < old.length) {k : Nat}
    (hk : k = min (min (more + 1) old.length) stream.length) :
    receiveStep (done.length + old.length) outcomes.head
        ⟨errorCount, done.length, done ++ old, stream⟩ =
      some ⟨errorCount, (done ++ stream.take k).length, done ++ stream.take k ++ old.drop k,
        stream.drop k⟩ := by
  have hlen : (stream.take k).length = k := List.length_take_of_le (by omega)
  have hne : stream.take k ≠ [] := List.ne_nil_of_length_pos (by omega)
  have hle : (stream.take k).length ≤ old.length := by omega
  have htake : stream.take (min (more + 1) old.length) = stream.take k := by
    rw [hk]
    exact List.take_eq_take_min
  have hdrop : stream.drop (min (more + 1) old.length) = stream.drop k := by
    rw [hk]
    exact List.drop_eq_drop_min
  have hempty : stream.isEmpty = false :=
    List.isEmpty_eq_false_iff.mpr (List.ne_nil_of_length_pos hs)
  have hread : Pipe.read outcomes.head old.length stream =
      some ⟨some (stream.take k), stream.drop k⟩ := by
    rw [ho, Pipe.read, hempty, htake, hdrop]
    rfl
  have hdropk : old.drop (stream.take k).length = old.drop k := by rw [hlen]
  rw [← hdropk]
  exact receiveStep_of_read hne hle hread

theorem receiveStep_failure {s : LoopState} (hf : failures outcomes.head = 1) (count : Nat) :
    receiveStep count outcomes.head s = some { s with errorCount := s.errorCount + 1 } := by
  cases ho : outcomes.head with
  | error | empty => rfl
  | data more =>
    rw [ho] at hf
    cases hf

theorem receiveLoop_read {done old stream : List UInt8} (he : errorCount < pipeReadErrorMax)
    (ho : outcomes.head = .data more) (hs : 0 < stream.length) (hn : 0 < old.length) {k : Nat}
    (hk : k = min (min (more + 1) old.length) stream.length) :
    receiveLoop (done.length + old.length) outcomes
        ⟨errorCount, done.length, done ++ old, stream⟩ =
      receiveLoop ((done ++ stream.take k).length + (old.drop k).length) outcomes.tail
        ⟨errorCount, (done ++ stream.take k).length, done ++ stream.take k ++ old.drop k,
          stream.drop k⟩ := by
  have hl : done.length < done.length + old.length := Nat.lt_add_of_pos_right hn
  have hkl : (stream.take k).length = k := List.length_take_of_le (by omega)
  have hcount : done.length + old.length =
      (done ++ stream.take k).length + (old.drop k).length := by
    rw [List.length_append, hkl, List.length_drop]
    omega
  rw [receiveLoop_of_step hl (receiveStep_stream ho hs hn hk) (Nat.not_le.mpr he), hcount]

/-- How the loop ends that has `old` left to fill: it succeeds if and only if the bytes arrive,
and then it has put them behind those received before, in their order, and taken no others. -/
def EndsAs (done old stream : List UInt8) (arrives : Prop) (r : Option (Bool × LoopState)) :
    Prop :=
  ∃ complete t, r = some (complete, t) ∧ (complete = true ↔ arrives) ∧
    (complete = true → t.buffer = done ++ stream.take old.length ∧ t.pipe = stream.drop old.length)

theorem EndsAs.of_rest {done old stream : List UInt8} {arrives : Prop}
    {r : Option (Bool × LoopState)} {k : Nat} (hk : k ≤ old.length)
    (h : EndsAs (done ++ stream.take k) (old.drop k) (stream.drop k) arrives r) :
    EndsAs done old stream arrives r := by
  obtain ⟨complete, t, hr, hc, hb⟩ := h
  refine ⟨complete, t, hr, hc, fun h => ?_⟩
  obtain ⟨hbuffer, hpipe⟩ := hb h
  have hold : k + (old.drop k).length = old.length := by
    rw [List.length_drop, Nat.add_sub_cancel' hk]
  constructor
  · rw [hbuffer, List.append_assoc, ← hold, List.take_add]
  · rw [hpipe, List.drop_drop, hold]

theorem receiveLoop_endsAs {done old stream : List UInt8} (he : errorCount < pipeReadErrorMax)
    (hr : Returns errorCount old.length stream.length outcomes) :
    EndsAs done old stream (Arrives errorCount old.length stream.length outcomes)
      (receiveLoop (done.length + old.length) outcomes
        ⟨errorCount, done.length, done ++ old, stream⟩) := by
  induction hm : old.length + (pipeReadErrorMax - errorCount) using Nat.strong_induction_on
    generalizing errorCount outcomes done old stream with
  | _ measure ih =>
    subst hm
    by_cases hnil : old = []
    · subst hnil
      refine ⟨true, _, receiveLoop_of_done (Nat.le_refl _), ?_, fun _ => ⟨rfl, rfl⟩⟩
      exact iff_of_true rfl (arrives_zero he)
    have hpos := List.length_pos_iff.mpr hnil
    by_cases hf : failures outcomes.head = 1
    · have hl : done.length < done.length + old.length := Nat.lt_add_of_pos_right hpos
      have hstep := receiveStep_failure (s := ⟨errorCount, done.length, done ++ old, stream⟩) hf
        (done.length + old.length)
      rw [arrives_of_failure hf hpos]
      by_cases hmax : pipeReadErrorMax ≤ errorCount + 1
      · refine ⟨false, _, receiveLoop_of_errors hl hstep hmax, ?_, fun h => nomatch h⟩
        refine iff_of_false Bool.false_ne_true ?_
        rintro ⟨n, -, hn⟩
        omega
      · have hlt : errorCount + 1 < pipeReadErrorMax := Nat.not_le.mp hmax
        rw [receiveLoop_of_step hl hstep hmax]
        exact ih (old.length + (pipeReadErrorMax - (errorCount + 1))) (by omega) hlt
          (hr.of_failure hf) rfl
    · obtain ⟨more, ho⟩ := data_of_not_failure hf
      have hs := hr.head_data ho he hpos
      generalize hk : min (min (more + 1) old.length) stream.length = k
      have hnext := hr.of_data ho hk.symm
      have harrives : Arrives errorCount old.length stream.length outcomes ↔ _ :=
        arrives_of_data ho hk.symm hpos
      rw [← List.length_drop, ← List.length_drop] at hnext harrives
      have hless : (old.drop k).length + (pipeReadErrorMax - errorCount) <
          old.length + (pipeReadErrorMax - errorCount) := by
        rw [List.length_drop]
        omega
      rw [receiveLoop_read he ho hs hpos hk.symm, harrives]
      exact (ih _ hless he hnext rfl).of_rest (by omega)

theorem Arrives.le (ha : Arrives errorCount needed length outcomes) : needed ≤ length := by
  obtain ⟨n, hb, -⟩ := ha
  exact Nat.le_trans hb (Nat.min_le_right _ _)

end

theorem length_read_le {o : ReadOutcome} {count : Nat} {pipe bytes : List UInt8}
    {r : ReadResult UInt8} (hr : Pipe.read o count pipe = some r) (hb : r.bytes = some bytes) :
    bytes.length ≤ count := by
  cases o with
  | error =>
    obtain rfl := Option.some.inj hr
    cases hb
  | empty =>
    obtain rfl := Option.some.inj hr
    obtain rfl := Option.some.inj hb
    exact Nat.zero_le count
  | data more =>
    rw [Pipe.read] at hr
    split at hr
    · cases hr
    · obtain rfl := Option.some.inj hr
      obtain rfl := Option.some.inj hb
      rw [List.length_take]
      omega

/-- A read stores its bytes from the length received so far on, one for each index by which the
length grows, and there are no more of them than there is room for. -/
theorem receiveStep_stores {dataLength : Nat} {o : ReadOutcome} {s t : LoopState}
    (hs : receiveStep dataLength o s = some t) :
    ∃ bytes, t.buffer = store s.buffer s.receivedLength bytes ∧
      t.receivedLength = s.receivedLength + bytes.length ∧
      bytes.length ≤ dataLength - s.receivedLength := by
  obtain ⟨r, hread, hr⟩ := Option.map_eq_some_iff.mp hs
  split at hr
  · subst hr
    exact ⟨[], rfl, rfl, Nat.zero_le _⟩
  · subst hr
    exact ⟨[], rfl, rfl, Nat.zero_le _⟩
  · next bytes _ hb =>
    subst hr
    exact ⟨bytes, rfl, rfl, length_read_le hread hb⟩

/-- The loop writes at the index `i` of its buffer, in the read it makes now or a later one. By
`receiveStep_stores` the indices are those of the bytes that the step stores. -/
inductive WritesAt (dataLength : Nat) : Stream' ReadOutcome → LoopState → Nat → Prop
  | now {outcomes : Stream' ReadOutcome} {s t : LoopState} {i : Nat} :
      s.receivedLength < dataLength → receiveStep dataLength outcomes.head s = some t →
      s.receivedLength ≤ i → i < t.receivedLength → WritesAt dataLength outcomes s i
  | later {outcomes : Stream' ReadOutcome} {s t : LoopState} {i : Nat} :
      s.receivedLength < dataLength → receiveStep dataLength outcomes.head s = some t →
      ¬pipeReadErrorMax ≤ t.errorCount → WritesAt dataLength outcomes.tail t i →
      WritesAt dataLength outcomes s i

theorem writesAt_lt {dataLength i : Nat} {outcomes : Stream' ReadOutcome} {s : LoopState}
    (hw : WritesAt dataLength outcomes s i) : i < dataLength := by
  induction hw with
  | now hl hs _ hi =>
    obtain ⟨bytes, -, hgrown, hroom⟩ := receiveStep_stores hs
    omega
  | later _ _ _ _ ih => exact ih

/-- How a reception of data ends: the result, the data with their length, and the pipe. -/
structure Reception where
  result : Bool
  data : Option (List UInt8)
  dataLength : UInt32
  pipe : List UInt8

/-- The reception succeeds if and only if the bytes arrive in time. It has then received the
first bytes of the stream and taken no others, and else there are no data. -/
structure Correct (dataLength : UInt32) (stream : List UInt8) (outcomes : Stream' ReadOutcome)
    (r : Reception) : Prop where
  succeeds : r.result = true ↔ Arrives 0 dataLength.toNat stream.length outcomes
  received : r.result = true → dataLength.toNat ≤ stream.length ∧
    r.data = some (stream.take dataLength.toNat) ∧ r.dataLength = dataLength ∧
      r.pipe = stream.drop dataLength.toNat
  failed : r.result = false → r.data = none ∧ r.dataLength = 0

section

variable {dataLength : UInt32} {stream pipe : List UInt8} {outcomes : Stream' ReadOutcome}

theorem receiveData_returns (hl : 1 < dataLength.toNat)
    (hr : Returns 0 dataLength.toNat stream.length outcomes) :
    (Arrives 0 dataLength.toNat stream.length outcomes ∧
      receiveData dataLength outcomes stream =
        some (.received (some (stream.take dataLength.toNat)) (stream.drop dataLength.toNat))) ∨
    (¬Arrives 0 dataLength.toNat stream.length outcomes ∧
      ∃ left, receiveData dataLength outcomes stream = some (.aborted left)) := by
  let old : List UInt8 := List.replicate dataLength.toNat 0
  have ho : old.length = dataLength.toNat := List.length_replicate
  have h0 : 0 < pipeReadErrorMax := by decide
  have hends : EndsAs [] old stream _ _ := receiveLoop_endsAs h0 (ho.symm ▸ hr)
  rw [List.nil_append, List.length_nil, Nat.zero_add, ho] at hends
  obtain ⟨complete, t, ht, hc, hb⟩ := hends
  rw [ho] at hb
  have hd : receiveData dataLength outcomes stream =
      some (if complete then .received (some t.buffer) t.pipe else .aborted t.pipe) := by
    rw [receiveData, if_pos hl, ht]
    rfl
  cases complete with
  | true =>
    obtain ⟨hbuffer, hpipe⟩ := hb rfl
    left
    rw [hd, hbuffer, hpipe]
    exact ⟨hc.mp rfl, rfl⟩
  | false =>
    right
    exact ⟨fun ha => Bool.false_ne_true (hc.mpr ha), t.pipe, hd⟩

theorem correct_received (ha : Arrives 0 dataLength.toNat stream.length outcomes) :
    Correct dataLength stream outcomes
      ⟨true, some (stream.take dataLength.toNat), dataLength, stream.drop dataLength.toNat⟩ where
  succeeds := iff_of_true rfl ha
  received _ := ⟨ha.le, rfl, rfl, rfl⟩
  failed h := nomatch h

theorem correct_aborted (hn : ¬Arrives 0 dataLength.toNat stream.length outcomes)
    (left : List UInt8) : Correct dataLength stream outcomes ⟨false, none, 0, left⟩ where
  succeeds := iff_of_false Bool.false_ne_true hn
  received h := nomatch h
  failed _ := ⟨rfl, rfl⟩

theorem receiveRequest_correct {c : PipeCommunication} {command : UInt8}
    (hs : c.mStarted = true) (hl : 1 < dataLength.toNat)
    (hh : readHeader outcomes.head pipe = some (some (command, dataLength), stream))
    (hr : Returns 0 dataLength.toNat stream.length outcomes.tail) :
    ∃ a, c.receiveRequest outcomes pipe = some a ∧
      Correct dataLength stream outcomes.tail ⟨a.result, a.communication.mCurrentReq.data,
        a.communication.mCurrentReq.dataLength, a.pipe⟩ := by
  obtain ⟨ha, hd⟩ | ⟨hn, left, hd⟩ := receiveData_returns hl hr
  · simp only [PipeCommunication.receiveRequest, hs, if_true, hh, hd]
    exact ⟨_, rfl, correct_received ha⟩
  · simp only [PipeCommunication.receiveRequest, hs, if_true, hh, hd]
    exact ⟨_, rfl, correct_aborted hn left⟩

/-- Given up, the client sets the status itself. -/
theorem sendRequest_correct {c : PipeClient} {req : Request} {res : Response}
    {head body : WriteOutcome} {receiver : Pipes → Pipes} {pipes : Pipes} {request : List UInt8}
    {status : UInt8} (hs : c.mStarted = true)
    (hw : PipeClient.writeRequest req head body pipes.request = (true, request))
    (hl : 1 < dataLength.toNat) (hf : ¬Failed status)
    (hh : readHeader outcomes.head (receiver { pipes with request }).response =
      some (some (status, dataLength), stream))
    (hr : Returns 0 dataLength.toNat stream.length outcomes.tail) :
    ∃ a, c.sendRequest req res head body receiver outcomes pipes = some a ∧
      Correct dataLength stream outcomes.tail
        ⟨a.result, a.res.data, a.res.dataLength, a.pipes.response⟩ ∧
      (a.result = false → a.res.responseStatus = Status.error.toByte) := by
  obtain ⟨he, hm⟩ := not_or.mp hf
  obtain ⟨ha, hd⟩ | ⟨hn, left, hd⟩ := receiveData_returns hl hr
  · simp only [PipeClient.sendRequest, hs, if_true, hw, PipeClient.readResponse, hh, if_neg he,
      if_neg hm, hd, Option.map_some]
    exact ⟨_, rfl, correct_received ha, fun h => absurd h.symm Bool.false_ne_true⟩
  · simp only [PipeClient.sendRequest, hs, if_true, hw, PipeClient.readResponse, hh, if_neg he,
      if_neg hm, hd, Option.map_some]
    exact ⟨_, rfl, correct_aborted hn left, fun _ => rfl⟩

end

/-- The payload of a request and that of a response are received as they should be under every
schedule of reads, and no read writes behind the buffer. -/
theorem payloads_received (dataLength : UInt32) (stream : List UInt8)
    (outcomes : Stream' ReadOutcome) (hl : 1 < dataLength.toNat)
    (hr : Returns 0 dataLength.toNat stream.length outcomes.tail) :
    (∀ (c : PipeCommunication) (command : UInt8) (pipe : List UInt8), c.mStarted = true →
      readHeader outcomes.head pipe = some (some (command, dataLength), stream) →
      ∃ a, c.receiveRequest outcomes pipe = some a ∧
        Correct dataLength stream outcomes.tail ⟨a.result, a.communication.mCurrentReq.data,
          a.communication.mCurrentReq.dataLength, a.pipe⟩) ∧
    (∀ (c : PipeClient) (req : Request) (res : Response) (head body : WriteOutcome)
        (receiver : Pipes → Pipes) (pipes : Pipes) (request : List UInt8) (status : UInt8),
      c.mStarted = true →
      PipeClient.writeRequest req head body pipes.request = (true, request) → ¬Failed status →
      readHeader outcomes.head (receiver { pipes with request }).response =
        some (some (status, dataLength), stream) →
      ∃ a, c.sendRequest req res head body receiver outcomes pipes = some a ∧
        Correct dataLength stream outcomes.tail
          ⟨a.result, a.res.data, a.res.dataLength, a.pipes.response⟩ ∧
        (a.result = false → a.res.responseStatus = Status.error.toByte)) ∧
    ∀ i, WritesAt dataLength.toNat outcomes.tail
      { buffer := List.replicate dataLength.toNat 0, pipe := stream } i → i < dataLength.toNat := by
  refine ⟨?_, ?_, fun i hw => writesAt_lt hw⟩
  · intro c command pipe hs hh
    exact receiveRequest_correct hs hl hh hr
  · intro c req res head body receiver pipes request status hs hw hf hh
    exact sendRequest_correct hs hw hl hf hh hr

/-- The header in one read, then a failing read, and from there on one byte at a time. -/
def slowly : Stream' ReadOutcome :=
  Stream'.cons (.data 4) (Stream'.cons .error (Stream'.const (.data 0)))

/-- A SET_BREAKPOINT request of two bytes with another byte behind it. -/
theorem slowly_received :
    ∃ a, PipeCommunication.receiveRequest { mStarted := true } slowly [2, 0, 0, 0, 2, 1, 65, 7] =
        some a ∧ a.result = true ∧ a.communication.mCurrentReq.data = some [1, 65] ∧
          a.pipe = [7] := by
  have hr : Returns 0 (2 : UInt32).toNat [1, 65, 7].length slowly.tail :=
    returns_of_le (by decide)
  obtain ⟨hrequest, -, -⟩ := payloads_received 2 [1, 65, 7] slowly (by decide) hr
  obtain ⟨a, ha, hc⟩ := hrequest { mStarted := true } 2 [2, 0, 0, 0, 2, 1, 65, 7] rfl rfl
  have hs : a.result = true := hc.succeeds.mpr ⟨3, by decide, by decide⟩
  obtain ⟨-, hd, -, hp⟩ := hc.received hs
  exact ⟨a, ha, hs, hd, hp⟩

end VpTesting.PayloadReception

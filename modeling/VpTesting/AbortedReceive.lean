import VpTesting.PipeReplies
import VpTesting.PipeRequests
import VpTesting.StreamPositions

namespace VpTesting.AbortedReceive

open VpTesting.ByteMemory VpTesting.Types VpTesting.Pipe VpTesting.PipeFrames VpTesting.ReceiveLoop
  VpTesting.PipeTestingCommunication VpTesting.PipeRequests VpTesting.PipeReplies
  VpTesting.StreamPositions

/-- The loop gives up with the read behind the first ones that bring `received` of the bytes
needed: it is the last failure tolerated, and not all bytes have come. -/
def GivesUpAfter (errorCount needed received : Nat) (outcomes : Stream' ReadOutcome) : Prop :=
  ∃ n, ((outcomes.take n).map arriving).sum = received ∧ received < needed ∧
    failures (outcomes.get n) = 1 ∧
    errorCount + ((outcomes.take n).map failures).sum + 1 = pipeReadErrorMax

section

variable {errorCount needed received more : Nat} {outcomes : Stream' ReadOutcome}

theorem not_givesUpAfter_zero : ¬GivesUpAfter errorCount 0 received outcomes := by
  rintro ⟨n, -, hn, -⟩
  exact Nat.not_lt_zero _ hn

theorem not_givesUpAfter_of_le (he : pipeReadErrorMax ≤ errorCount) :
    ¬GivesUpAfter errorCount needed received outcomes := by
  rintro ⟨n, -, -, -, hn⟩
  omega

theorem givesUpAfter_of_failure (hf : failures outcomes.head = 1) (hn : 0 < needed) :
    GivesUpAfter errorCount needed received outcomes ↔
      (errorCount + 1 = pipeReadErrorMax ∧ received = 0) ∨
        GivesUpAfter (errorCount + 1) needed received outcomes.tail := by
  have ha := arriving_of_failure hf
  constructor
  · rintro ⟨n, hr, hl, hg, he⟩
    cases n with
    | zero => exact Or.inl ⟨he, hr.symm⟩
    | succ n =>
      rw [sum_take_succ] at hr he
      exact Or.inr ⟨n, by omega, hl, hg, by omega⟩
  · rintro (⟨he, rfl⟩ | ⟨n, hr, hl, hg, he⟩)
    · exact ⟨0, rfl, hn, hf, he⟩
    · refine ⟨n + 1, ?_, hl, hg, ?_⟩
      · rw [sum_take_succ]
        omega
      · rw [sum_take_succ]
        omega

theorem givesUpAfter_of_data (ho : outcomes.head = .data more) :
    GivesUpAfter errorCount needed received outcomes ↔
      ∃ k, received = more + 1 + k ∧
        GivesUpAfter errorCount (needed - (more + 1)) k outcomes.tail := by
  have ha := arriving_of_data ho
  have hf := failures_of_data ho
  constructor
  · rintro ⟨n, hr, hl, hg, he⟩
    cases n with
    | zero =>
      have h0 : failures (outcomes.get 0) = 0 := hf
      omega
    | succ n =>
      rw [sum_take_succ] at hr he
      exact ⟨((outcomes.tail.take n).map arriving).sum, by omega, n, rfl, by omega, hg, by omega⟩
  · rintro ⟨k, rfl, n, hr, hl, hg, he⟩
    refine ⟨n + 1, ?_, by omega, hg, ?_⟩
    · rw [sum_take_succ]
      omega
    · rw [sum_take_succ]
      omega

/-- The loop gives up with the bytes in the pipe that had not come. -/
theorem receiveLoop_gives_up_iff {dataLength : Nat} {s : LoopState} {bytes rest : List UInt8}
    (hp : s.pipe = bytes ++ rest) (hd : s.receivedLength + bytes.length = dataLength)
    (he : s.errorCount < pipeReadErrorMax) (left : List UInt8) :
    (∃ t, receiveLoop dataLength outcomes s = some (false, t) ∧ t.pipe = left) ↔
      ∃ k, GivesUpAfter s.errorCount bytes.length k outcomes ∧ left = bytes.drop k ++ rest := by
  apply receiveLoop_rule (P := fun outcomes s bytes r =>
      (∃ t, r = some (false, t) ∧ t.pipe = left) ↔
        ∃ k, GivesUpAfter s.errorCount bytes.length k outcomes ∧ left = bytes.drop k ++ rest)
      ?_ ?_ ?_ hp hd he
  · intro outcomes s _
    constructor
    · rintro ⟨t, ht, -⟩
      cases ht
    · rintro ⟨k, hg, -⟩
      exact absurd hg not_givesUpAfter_zero
  · intro outcomes s bytes t hnil hmax hf hpipe
    simp only [givesUpAfter_of_failure hf (List.length_pos_iff.mpr hnil)]
    constructor
    · rintro ⟨u, hu, rfl⟩
      obtain ⟨-, rfl⟩ := Prod.mk.inj (Option.some.inj hu)
      exact ⟨0, Or.inl ⟨hmax, rfl⟩, hpipe⟩
    · rintro ⟨k, ⟨-, rfl⟩ | hg, rfl⟩
      · exact ⟨t, rfl, hpipe⟩
      · exact absurd hg (not_givesUpAfter_of_le (Nat.le_of_eq hmax.symm))
  · intro outcomes s bytes t result hnil hlt hte htail
    rw [htail, hte]
    by_cases hf : failures outcomes.head = 1
    · rw [hf, arriving_of_failure hf]
      simp only [givesUpAfter_of_failure hf (List.length_pos_iff.mpr hnil), List.drop_zero]
      refine exists_congr fun k => and_congr_left fun _ => ?_
      rw [or_iff_right fun h => by omega]
    · obtain ⟨more, ho⟩ := data_of_not_failure hf
      have h0 := failures_of_data ho
      have ha := arriving_of_data ho
      rw [ha, h0, Nat.add_zero, List.length_drop]
      simp only [givesUpAfter_of_data ho, List.drop_drop]
      constructor
      · rintro ⟨k, hg, rfl⟩
        exact ⟨_, ⟨k, rfl, hg⟩, rfl⟩
      · rintro ⟨_, ⟨k, rfl, hg⟩, rfl⟩
        exact ⟨k, hg, rfl⟩

end

theorem receiveData_aborted_iff {outcomes : Stream' ReadOutcome} {p : Payload}
    {rest left : List UInt8} :
    receiveData p.length outcomes (p.bytes ++ rest) = some (.aborted left) ↔
      1 < p.bytes.length ∧ ∃ received, GivesUpAfter 0 p.bytes.length received outcomes ∧
        left = p.bytes.drop received ++ rest := by
  let s : LoopState := { buffer := List.replicate p.bytes.length 0, pipe := p.bytes ++ rest }
  have h0 : s.errorCount < pipeReadErrorMax := by
    have hmax : 0 < pipeReadErrorMax := by decide
    exact hmax
  have hloop : (∃ t, receiveLoop p.bytes.length outcomes s = some (false, t) ∧ t.pipe = left) ↔
      ∃ received, GivesUpAfter 0 p.bytes.length received outcomes ∧
        left = p.bytes.drop received ++ rest :=
    receiveLoop_gives_up_iff rfl (Nat.zero_add p.bytes.length) h0 left
  rw [receiveData, Payload.toNat_length]
  by_cases hl : 1 < p.bytes.length
  · rw [if_pos hl, ← hloop]
    constructor
    · intro h
      obtain ⟨⟨complete, t⟩, ht, hr⟩ := Option.map_eq_some_iff.mp h
      cases complete with
      | true => cases hr
      | false =>
        injection hr with hleft
        exact ⟨hl, t, ht, hleft⟩
    · rintro ⟨-, t, ht, rfl⟩
      rw [ht]
      rfl
  · rw [if_neg hl]
    constructor
    · rintro ⟨⟩
    · rintro ⟨hl', -⟩
      exact absurd hl' hl

/-- What is in the request pipe when the first of some calls is made that returns true, each
of the calls being given by the outcomes of its reads. -/
def nextDelivery (c : PipeCommunication) :
    List (Stream' ReadOutcome) → List UInt8 → Option (List UInt8)
  | [], _ => none
  | outcomes :: calls, pipe =>
    match c.receiveRequest outcomes pipe with
    | none => none
    | some a => if a.result then some pipe else nextDelivery a.communication calls a.pipe

section

variable {c : PipeCommunication} {pipe left : List UInt8}

/-- Requests are delivered from places that parse only. -/
theorem nextDelivery_parses {calls : List (Stream' ReadOutcome)}
    (hn : nextDelivery c calls pipe = some left) : left <:+ pipe ∧ Parses left := by
  induction calls generalizing c pipe with
  | nil => cases hn
  | cons outcomes calls ih =>
    cases hr : c.receiveRequest outcomes pipe with
    | none =>
      rw [nextDelivery, hr] at hn
      cases hn
    | some a =>
      rw [nextDelivery, hr] at hn
      obtain ⟨hsuffix, hparses⟩ := receiveRequest_suffix hr
      simp only at hn
      split_ifs at hn with ha
      · obtain rfl := Option.some.inj hn
        exact ⟨List.suffix_rfl, hparses ha⟩
      · obtain ⟨hl, hp⟩ := ih hn
        exact ⟨hl.trans hsuffix, hp⟩

/-- And from each such place they can be. -/
theorem exists_delivery (hc : c.mStarted = true) (hp : Parses pipe) :
    ∃ outcomes a, c.receiveRequest outcomes pipe = some a ∧ a.result = true := by
  obtain ⟨h5, hd⟩ := hp
  have hw : Whole (arrival (Stream'.const 0)).head := whole_arrival _
  obtain ⟨⟨first, dataLength⟩, rest, hh⟩ := isSome_readHeader hw h5
  obtain ⟨-, rfl, rfl⟩ := readHeader_some hh
  have hlen : (announced pipe).toNat ≤ 1 ∨ (announced pipe).toNat ≤ (pipe.drop 5).length := by
    rw [List.length_drop]
    omega
  obtain ⟨data, left, hdata⟩ := exists_received hlen
  have htail : receiveData (announced pipe) (arrival (Stream'.const 0)).tail (pipe.drop 5) =
      some (.received data left) := hdata
  refine ⟨arrival (Stream'.const 0), ?_⟩
  simp only [PipeCommunication.receiveRequest, hc, if_true, hh, htail]
  exact ⟨_, rfl, rfl⟩

/-- The header is read byte by byte, each time by a call that fails. -/
theorem receiveRequest_single (hc : c.mStarted = true) (b : UInt8) :
    c.receiveRequest (Stream'.const (.data 0)) (b :: pipe) = some ⟨false, c, pipe⟩ := by
  simp [PipeCommunication.receiveRequest, hc, readHeader, Pipe.read]

theorem nextDelivery_reaches (hc : c.mStarted = true) (hp : Parses left) (hs : left <:+ pipe) :
    ∃ calls, nextDelivery c calls pipe = some left := by
  obtain ⟨skipped, rfl⟩ := hs
  induction skipped with
  | nil =>
    obtain ⟨outcomes, a, hr, ha⟩ := exists_delivery hc hp
    refine ⟨[outcomes], ?_⟩
    rw [List.nil_append, nextDelivery, hr]
    exact if_pos ha
  | cons b skipped ih =>
    obtain ⟨calls, hn⟩ := ih
    refine ⟨Stream'.const (.data 0) :: calls, ?_⟩
    rw [List.cons_append, nextDelivery, receiveRequest_single hc]
    exact hn

end

variable (current : Request) (r : SentRequest) (reqs : List SentRequest)
  (outcomes : Stream' ReadOutcome)

/-- A call on the frame of a request. -/
def receive : Option Received :=
  PipeCommunication.receiveRequest { mStarted := true, mCurrentReq := current } outcomes
    (written (r :: reqs) [])

/-- The pipe holds the frames of the last requests sent, and nothing in front of them. -/
def AtBoundary (pipe : List UInt8) : Prop :=
  ∃ rest, rest <:+ reqs ∧ pipe = rest.flatMap SentRequest.frame

/-- If the call has read the header and then gives up, the next request that is delivered
starts with a frame, however the calls up to it go. -/
def Undisturbed : Prop :=
  ∀ a, receive current r reqs outcomes = some a → Whole outcomes.head → a.result = false →
    ∀ calls pipe, nextDelivery a.communication calls a.pipe = some pipe → AtBoundary reqs pipe

/-- Behind the bytes that come before the call gives up, nothing but frames parses. -/
def NothingElseParses : Prop :=
  Whole outcomes.head → 1 < r.payload.bytes.length →
    ∀ received, GivesUpAfter 0 r.payload.bytes.length received outcomes.tail →
      ∀ pipe, pipe <:+ r.payload.bytes.drop received ++ reqs.flatMap SentRequest.frame →
        Parses pipe → AtBoundary reqs pipe

variable {current r reqs outcomes}

/-- What the call returns once it has read the header. -/
def returned (r : SentRequest) : DataResult → Received
  | .received data pipe =>
    ⟨true, { mStarted := true, mCurrentReq := ⟨r.command.toByte, data, r.payload.length⟩ }, pipe⟩
  | .aborted pipe =>
    ⟨false, { mStarted := true, mCurrentReq := ⟨r.command.toByte, none, 0⟩ }, pipe⟩

theorem receive_eq (hw : Whole outcomes.head) :
    receive current r reqs outcomes = (receiveData r.payload.length outcomes.tail
      (r.payload.bytes ++ reqs.flatMap SentRequest.frame)).map (returned r) := by
  have hh := readHeader_frame hw r.command.toByte r.payload (reqs.flatMap SentRequest.frame)
  rw [receive, written_eq, List.nil_append, List.flatMap_cons, SentRequest.frame]
  simp only [PipeCommunication.receiveRequest, if_true, hh]
  cases receiveData r.payload.length outcomes.tail
      (r.payload.bytes ++ reqs.flatMap SentRequest.frame) with
  | none => rfl
  | some d => cases d <;> rfl

theorem started_returned (r : SentRequest) (d : DataResult) :
    (returned r d).communication.mStarted = true := by
  cases d <;> rfl

theorem started_of_receive (hw : Whole outcomes.head) {a : Received}
    (ha : receive current r reqs outcomes = some a) : a.communication.mStarted = true := by
  rw [receive_eq hw] at ha
  obtain ⟨d, -, rfl⟩ := Option.map_eq_some_iff.mp ha
  exact started_returned r d

/-- The call gives up with a part of the payload in front of the frames behind. -/
theorem receive_gives_up_iff (hw : Whole outcomes.head) (left : List UInt8) :
    (∃ a, receive current r reqs outcomes = some a ∧ a.result = false ∧
        a.communication.mStarted = true ∧ a.pipe = left) ↔
      1 < r.payload.bytes.length ∧
        ∃ received, GivesUpAfter 0 r.payload.bytes.length received outcomes.tail ∧
          left = r.payload.bytes.drop received ++ reqs.flatMap SentRequest.frame := by
  rw [← receiveData_aborted_iff, receive_eq hw]
  constructor
  · rintro ⟨a, ha, hf, -, rfl⟩
    obtain ⟨d, hd, rfl⟩ := Option.map_eq_some_iff.mp ha
    cases d with
    | received data pipe => cases hf
    | aborted pipe => exact hd
  · intro hd
    rw [hd]
    exact ⟨_, rfl, rfl, rfl, rfl⟩

theorem undisturbed_of_nothingElseParses (hp : NothingElseParses r reqs outcomes) :
    Undisturbed current r reqs outcomes := by
  intro a ha hw hf calls pipe hn
  have hs : a.communication.mStarted = true := started_of_receive hw ha
  obtain ⟨hl, received, hg, hleft⟩ := (receive_gives_up_iff hw a.pipe).mp ⟨a, ha, hf, hs, rfl⟩
  obtain ⟨hsuffix, hparses⟩ := nextDelivery_parses hn
  rw [hleft] at hsuffix
  exact hp hw hl received hg pipe hsuffix hparses

theorem nothingElseParses_of_undisturbed (hu : Undisturbed current r reqs outcomes) :
    NothingElseParses r reqs outcomes := by
  intro hw hl received hg pipe hsuffix hparses
  obtain ⟨a, ha, hf, hs, hleft⟩ := (receive_gives_up_iff hw _).mpr ⟨hl, received, hg, rfl⟩
  rw [← hleft] at hsuffix
  obtain ⟨calls, hn⟩ := nextDelivery_reaches hs hparses hsuffix
  exact hu a ha hw hf calls pipe hn

/-- The payload of a request that is given up is read as commands exactly if some place in
what is left of it, or in the frames behind, parses and is not the start of a frame. -/
theorem undisturbed_iff (current : Request) (r : SentRequest) (reqs : List SentRequest)
    (outcomes : Stream' ReadOutcome) :
    Undisturbed current r reqs outcomes ↔ NothingElseParses r reqs outcomes :=
  ⟨nothingElseParses_of_undisturbed, undisturbed_of_nothingElseParses⟩

/-- MMIO data for address 0. -/
def zeroAddress : SentRequest where
  command := .addToMmioReadQueue
  payload := ⟨List.replicate 11 0 ++ [1, 0, 0, 0, 1, 65], by simp⟩

/-- The header is read, and then every read fails. The address passes for a CONTINUE. -/
theorem zeroAddress_disturbed :
    ¬Undisturbed {} zeroAddress [] (Stream'.cons (.data 4) (Stream'.const .error)) := by
  intro hu
  have hp := nothingElseParses_of_undisturbed hu ⟨4, rfl, Nat.le_refl 4⟩ (by decide) 0
    ⟨4, rfl, by decide, rfl, rfl⟩ zeroAddress.payload.bytes (by simp) (by decide)
  obtain ⟨rest, hrest, he⟩ := hp
  obtain rfl := List.suffix_nil.mp hrest
  cases he

end VpTesting.AbortedReceive

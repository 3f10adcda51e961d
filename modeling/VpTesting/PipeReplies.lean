import VpTesting.PipeTestingClient
import VpTesting.ReplyOrder

namespace VpTesting.PipeReplies

open VpTesting.Types VpTesting.Pipe VpTesting.PipeFrames VpTesting.ReceiveLoop
  VpTesting.PipeTestingCommunication VpTesting.PipeTestingClient VpTesting.ReplyOrder

/-- The bytes a read brings if there are enough of them. -/
def arriving : ReadOutcome → Nat
  | .error | .empty => 0
  | .data more => more + 1

def failures : ReadOutcome → Nat
  | .error | .empty => 1
  | .data _ => 0

/-- So many reads fail that the loop gives up before the bytes needed have come. -/
def GivesUp (errorCount needed : Nat) (outcomes : Stream' ReadOutcome) : Prop :=
  ∃ n, ((outcomes.take n).map arriving).sum < needed ∧
    pipeReadErrorMax ≤ errorCount + ((outcomes.take n).map failures).sum

section

variable {o : ReadOutcome}

theorem arriving_of_failure (ho : failures o = 1) : arriving o = 0 := by
  cases o with
  | error | empty => rfl
  | data more => cases ho

theorem failures_le (o : ReadOutcome) : failures o ≤ 1 := by
  cases o with
  | error | empty => exact Nat.le_refl 1
  | data more => exact Nat.zero_le 1

theorem data_of_not_failure (ho : failures o ≠ 1) : ∃ more, o = .data more := by
  cases o with
  | error | empty => exact absurd rfl ho
  | data more => exact ⟨more, rfl⟩

theorem arriving_of_data {more : Nat} (ho : o = .data more) : arriving o = more + 1 := by
  rw [ho, arriving]

theorem failures_of_data {more : Nat} (ho : o = .data more) : failures o = 0 := by
  rw [ho, failures]

theorem sum_take_succ (f : ReadOutcome → Nat) (outcomes : Stream' ReadOutcome) (n : Nat) :
    ((outcomes.take (n + 1)).map f).sum =
      f outcomes.head + ((outcomes.tail.take n).map f).sum := by
  rw [Stream'.take_succ, List.map_cons, List.sum_cons]

end

section

variable {errorCount needed dataLength : Nat} {outcomes : Stream' ReadOutcome} {s : LoopState}

theorem givesUp_of_errors (hn : 0 < needed) (he : pipeReadErrorMax ≤ errorCount) :
    GivesUp errorCount needed outcomes := ⟨0, hn, he⟩

theorem not_givesUp_zero : ¬GivesUp errorCount 0 outcomes := by
  rintro ⟨n, hn, -⟩
  exact Nat.not_lt_zero _ hn

theorem givesUp_iff_tail (he : errorCount < pipeReadErrorMax) :
    GivesUp errorCount needed outcomes ↔
      GivesUp (errorCount + failures outcomes.head) (needed - arriving outcomes.head)
        outcomes.tail := by
  constructor
  · rintro ⟨n, hn, hf⟩
    cases n with
    | zero => exact absurd hf (Nat.not_le.mpr he)
    | succ n =>
      rw [sum_take_succ] at hn hf
      exact ⟨n, by omega, by omega⟩
  · rintro ⟨n, hn, hf⟩
    refine ⟨n + 1, ?_, ?_⟩
    · rw [sum_take_succ]
      omega
    · rw [sum_take_succ]
      omega

/-- A read while what is needed is in the pipe. -/
theorem receiveStep_needed {bytes rest : List UInt8} (hp : s.pipe = bytes ++ rest)
    (hd : s.receivedLength + bytes.length = dataLength) (hne : bytes ≠ []) (o : ReadOutcome) :
    ∃ t, receiveStep dataLength o s = some t ∧ t.errorCount = s.errorCount + failures o ∧
      t.pipe = bytes.drop (arriving o) ++ rest ∧
      t.receivedLength + (bytes.drop (arriving o)).length = dataLength := by
  cases o with
  | error | empty => exact ⟨_, rfl, rfl, hp, hd⟩
  | data more =>
    have hcount : dataLength - s.receivedLength = bytes.length := by omega
    have hread := read_data_append more bytes rest hne
    have hlen : (bytes.take (more + 1)).length + (bytes.drop (more + 1)).length =
        bytes.length := by
      rw [← List.length_append, List.take_append_drop]
    rw [receiveStep, hcount, hp, hread]
    cases htake : bytes.take (more + 1) with
    | nil =>
      obtain h0 | h0 := List.take_eq_nil_iff.mp htake
      · exact absurd h0 (Nat.succ_ne_zero more)
      · exact absurd h0 hne
    | cons x taken =>
      rw [htake] at hlen
      refine ⟨_, rfl, rfl, rfl, ?_⟩
      rw [← hd, ← hlen]
      exact Nat.add_assoc _ _ _

/-- The rule for the loop while the bytes still needed are in the pipe: it ends without any,
gives up at the last failure tolerated, or goes on with fewer bytes or another failure. -/
theorem receiveLoop_rule
    {P : Stream' ReadOutcome → LoopState → List UInt8 → Option (Bool × LoopState) → Prop}
    {rest : List UInt8}
    (hdone : ∀ outcomes s, s.pipe = rest → P outcomes s [] (some (true, s)))
    (hgive : ∀ outcomes s bytes t, bytes ≠ [] → s.errorCount + 1 = pipeReadErrorMax →
      failures outcomes.head = 1 → t.pipe = bytes ++ rest → P outcomes s bytes (some (false, t)))
    (hnext : ∀ outcomes s bytes t r, bytes ≠ [] → t.errorCount < pipeReadErrorMax →
      t.errorCount = s.errorCount + failures outcomes.head →
      P outcomes.tail t (bytes.drop (arriving outcomes.head)) r → P outcomes s bytes r)
    {bytes : List UInt8} (hp : s.pipe = bytes ++ rest)
    (hd : s.receivedLength + bytes.length = dataLength) (he : s.errorCount < pipeReadErrorMax) :
    P outcomes s bytes (receiveLoop dataLength outcomes s) := by
  induction hk : remaining dataLength s using Nat.strong_induction_on
    generalizing outcomes s bytes with
  | _ k ih =>
    subst hk
    by_cases hnil : bytes = []
    · subst hnil
      rw [receiveLoop_of_done (Nat.le_of_eq hd.symm)]
      exact hdone outcomes s hp
    have hpos := List.length_pos_iff.mpr hnil
    have hl : s.receivedLength < dataLength := by omega
    obtain ⟨t, ht, hte, htp, htd⟩ := receiveStep_needed hp hd hnil outcomes.head
    by_cases hmax : pipeReadErrorMax ≤ t.errorCount
    · have hle := failures_le outcomes.head
      have hf : failures outcomes.head = 1 := by omega
      rw [arriving_of_failure hf, List.drop_zero] at htp
      rw [receiveLoop_of_errors hl ht hmax]
      exact hgive outcomes s bytes t hnil (by omega) hf htp
    · have hlt := Nat.not_le.mp hmax
      rw [receiveLoop_of_step hl ht hmax]
      exact hnext outcomes s bytes t _ hnil hlt hte
        (ih _ (remaining_receiveStep hl ht hmax) htp htd hlt rfl)

/-- The loop over the data of one frame ends, and it leaves some of them if and only if it
gives up. -/
theorem receiveLoop_needed (outcomes : Stream' ReadOutcome)
    (hd : s.receivedLength + s.pipe.length = dataLength) (he : s.errorCount < pipeReadErrorMax) :
    ∃ complete t, receiveLoop dataLength outcomes s = some (complete, t) ∧
      (complete = true ↔ ¬GivesUp s.errorCount s.pipe.length outcomes) ∧
      (complete = true ↔ t.pipe = []) := by
  apply receiveLoop_rule (P := fun outcomes s bytes r => ∃ complete t, r = some (complete, t) ∧
      (complete = true ↔ ¬GivesUp s.errorCount bytes.length outcomes) ∧
      (complete = true ↔ t.pipe = [])) ?_ ?_ ?_ (List.append_nil s.pipe).symm hd he
  · intro outcomes s hpipe
    exact ⟨true, s, rfl, iff_of_true rfl not_givesUp_zero, iff_of_true rfl hpipe⟩
  · intro outcomes s bytes t hnil hmax hf hpipe
    have hg : GivesUp s.errorCount bytes.length outcomes := by
      rw [givesUp_iff_tail (by omega), hf, arriving_of_failure hf]
      exact givesUp_of_errors (List.length_pos_iff.mpr hnil) (Nat.le_of_eq hmax.symm)
    refine ⟨false, t, rfl, iff_of_false Bool.false_ne_true (not_not.mpr hg), ?_⟩
    rw [hpipe, List.append_nil]
    exact iff_of_false Bool.false_ne_true hnil
  · rintro outcomes s bytes t _ - hlt hte ⟨complete, u, rfl, hg, hpipe⟩
    refine ⟨complete, u, rfl, ?_, hpipe⟩
    rw [givesUp_iff_tail (by omega), ← hte, ← List.length_drop]
    exact hg

/-- All data of a frame are received, or the client gives up and leaves some behind. -/
theorem receiveData_needed (p : Payload) (outcomes : Stream' ReadOutcome)
    (hl : 1 < p.bytes.length) :
    (¬GivesUp 0 p.bytes.length outcomes ∧
      ∃ data, receiveData p.length outcomes p.bytes = some (.received data [])) ∨
    (GivesUp 0 p.bytes.length outcomes ∧
      ∃ left, left ≠ [] ∧ receiveData p.length outcomes p.bytes = some (.aborted left)) := by
  have h0 : 0 < pipeReadErrorMax := by decide
  obtain ⟨complete, t, hloop, hg, hp⟩ := receiveLoop_needed
    (s := { buffer := List.replicate p.bytes.length 0, pipe := p.bytes }) outcomes
    (Nat.zero_add _) h0
  rw [receiveData, Payload.toNat_length, if_pos hl, hloop]
  cases complete with
  | true =>
    refine Or.inl ⟨hg.mp rfl, some t.buffer, ?_⟩
    rw [← hp.mp rfl]
    rfl
  | false =>
    refine Or.inr ⟨?_, t.pipe, ?_, rfl⟩
    · by_contra hn
      cases hg.mpr hn
    · intro hnil
      cases hp.mpr hnil

end

theorem arriving_of_not_whole {o : ReadOutcome} (ho : ¬Whole o) : arriving o ≤ 4 := by
  cases o with
  | error | empty => exact Nat.zero_le 4
  | data more =>
    have hmore : ¬4 ≤ more := fun h => ho ⟨more, rfl, h⟩
    exact Nat.not_le.mp hmore

theorem isEmpty_of_five_le {pipe : List UInt8} (hp : 5 ≤ pipe.length) : pipe.isEmpty = false := by
  rw [List.isEmpty_eq_false_iff]
  exact List.ne_nil_of_length_pos (by omega)

theorem isSome_readHeader {o : ReadOutcome} (ho : Whole o) {pipe : List UInt8}
    (hp : 5 ≤ pipe.length) : ∃ header rest, readHeader o pipe = some (some header, rest) := by
  have hlen : ¬(pipe.take (min (4 + 1) 5)).length ≠ 5 := by
    rw [List.length_take]
    omega
  rw [readHeader_whole ho, readHeader, Pipe.read, isEmpty_of_five_le hp]
  simp only [Bool.false_eq_true, if_false, Option.map_some, if_neg hlen]
  exact ⟨_, _, rfl⟩

/-- A read that returns less takes it out of the pipe all the same. -/
theorem readHeader_not_whole {o : ReadOutcome} (ho : ¬Whole o) {pipe : List UInt8}
    (hp : 5 ≤ pipe.length) : readHeader o pipe = some (none, pipe.drop (arriving o)) := by
  have hle := arriving_of_not_whole ho
  cases o with
  | error | empty => rfl
  | data more =>
    have hmin : min (more + 1) 5 = more + 1 := Nat.min_eq_left (Nat.le_succ_of_le hle)
    have hlen : (pipe.take (more + 1)).length ≠ 5 := by
      rw [List.length_take]
      change more + 1 ≤ 4 at hle
      omega
    rw [readHeader, Pipe.read, isEmpty_of_five_le hp, hmin]
    simp only [Bool.false_eq_true, if_false, Option.map_some, if_pos hlen, arriving]

/-- A call of `send_request`: the request, what the response object holds before, the response to
the request, the reads of the client, and what the receiver leaves of the request pipe. A response
that comes late makes a read wait, fail or return less, and these are outcomes of the read. -/
structure PipeCall where
  req : Request
  res : Response
  status : Status
  data : Payload
  outcomes : Stream' ReadOutcome
  consume : List UInt8 → List UInt8

namespace PipeCall

def answer (a : PipeCall) : Response := Response.of a.status.toByte a.data

/-- The receiver takes the request and sends its response. -/
def receiver (a : PipeCall) (pipes : Pipes) : Pipes :=
  { request := a.consume pipes.request
    response := (PipeCommunication.sendResponse { mStarted := true } a.answer .full .full
      pipes.response).2 }

/-- What the call took of the bytes it found in the response pipe. -/
def taking (a : PipeCall) (pipes : Pipes) (r : Sent) : Taking :=
  let found := (a.receiver pipes).response
  { size := found.length - pipes.response.length
    taken := found.length - r.pipes.response.length
    answered := (readHeader a.outcomes.head found).any fun header => header.1.isSome
    result := r.result }

def call (a : PipeCall) (pipes : Pipes) : Option (Taking × Pipes) :=
  (PipeClient.sendRequest { mStarted := true } a.req a.res .full .full a.receiver a.outcomes
    pipes).map fun r => (a.taking pipes r, r.pipes)

def Answers (a : PipeCall) : Prop := Whole a.outcomes.head

/-- The read of the header returns less, or the status is not STATUS_OK and there are data, or the
data are a single byte, which is not looked for, or too many reads of them fail. -/
def Unfinished (a : PipeCall) : Prop :=
  ¬a.Answers ∨ (a.status ≠ .ok ∧ a.data.bytes ≠ []) ∨
    (a.status = .ok ∧
      (a.data.bytes.length = 1 ∨ GivesUp 0 a.data.bytes.length a.outcomes.tail))

/-- The data are not a single byte that the client does not notice it leaves behind. -/
def Regular (a : PipeCall) : Prop := a.status = .ok → a.data.bytes.length ≠ 1

def frame (a : PipeCall) : List UInt8 := PipeFrames.frame a.status.toByte a.data

theorem length_frame (a : PipeCall) : a.frame.length = 5 + a.data.bytes.length := by
  simp [frame, PipeFrames.frame]
  omega

theorem receiver_response (a : PipeCall) (pipes : Pipes) :
    (a.receiver pipes).response = pipes.response ++ a.frame :=
  congrArg Prod.snd (writeFrame_full a.status.toByte a.data pipes.response)

variable {a : PipeCall} {pipes t : Pipes} {r : Taking}

/-- A call that returns has read the response behind what was in the pipe before. -/
theorem call_returns (h : a.call pipes = some (r, t)) :
    (∃ res, PipeClient.readResponse a.res a.outcomes (pipes.response ++ a.frame) =
      some (r.result, res, t.response)) ∧
      r.size = a.frame.length ∧
      r.taken = pipes.response.length + a.frame.length - t.response.length ∧
      r.answered = (readHeader a.outcomes.head (pipes.response ++ a.frame)).any
        fun header => header.1.isSome := by
  obtain ⟨sent, hsent, heq⟩ := Option.map_eq_some_iff.mp h
  obtain ⟨rfl, rfl⟩ := Prod.mk.inj heq
  obtain ⟨request, hw⟩ : ∃ request,
      PipeClient.writeRequest a.req .full .full pipes.request = (true, request) := ⟨_, rfl⟩
  simp only [PipeClient.sendRequest, if_true, hw, receiver_response] at hsent
  obtain ⟨⟨result, res, left⟩, hread, rfl⟩ := Option.map_eq_some_iff.mp hsent
  refine ⟨⟨res, hread⟩, ?_, ?_, ?_⟩
  · simp [taking, receiver_response]
  · simp [taking, receiver_response]
  · simp only [taking, receiver_response]

theorem le_length_found (pipes : Pipes) (a : PipeCall) :
    5 ≤ (pipes.response ++ a.frame).length := by
  rw [List.length_append, length_frame]
  omega

theorem answered_iff_answers (h : a.call pipes = some (r, t)) : r.answered = true ↔ a.Answers := by
  obtain ⟨-, -, -, hr⟩ := call_returns h
  have hp := le_length_found pipes a
  rw [hr]
  by_cases ha : Whole a.outcomes.head
  · obtain ⟨header, rest, hh⟩ := isSome_readHeader ha hp
    rw [hh]
    exact iff_of_true rfl ha
  · rw [readHeader_not_whole ha hp]
    exact iff_of_false Bool.false_ne_true ha

theorem readResponse_not_whole (ha : ¬a.Answers) {pipe : List UInt8} (hp : 5 ≤ pipe.length) :
    PipeClient.readResponse a.res a.outcomes pipe =
      some (false, a.res, pipe.drop (arriving a.outcomes.head)) := by
  simp only [PipeClient.readResponse, readHeader_not_whole ha hp]

theorem unanswered (h : a.call pipes = some (r, t)) (ha : ¬a.Answers) :
    r.result = false ∧ r.taken ≤ r.size := by
  obtain ⟨⟨res, hread⟩, hsize, htaken, -⟩ := call_returns h
  rw [readResponse_not_whole ha (le_length_found pipes a)] at hread
  obtain ⟨hresult, hrest⟩ := Prod.mk.inj (Option.some.inj hread)
  obtain ⟨-, hleft⟩ := Prod.mk.inj hrest
  refine ⟨hresult.symm, ?_⟩
  have hle := arriving_of_not_whole ha
  rw [hsize, htaken, ← hleft, List.length_drop, List.length_append, length_frame]
  omega

theorem unfinished_iff_of_not_ok (ha : a.Answers) (hs : a.status ≠ .ok) :
    a.Unfinished ↔ a.data.bytes ≠ [] := by
  constructor
  · rintro (hn | ⟨-, hne⟩ | ⟨hok, -⟩)
    · exact absurd ha hn
    · exact hne
    · exact absurd hok hs
  · exact fun hne => Or.inr (Or.inl ⟨hs, hne⟩)

theorem unfinished_iff_of_ok (ha : a.Answers) (hs : a.status = .ok) :
    a.Unfinished ↔
      a.data.bytes.length = 1 ∨ GivesUp 0 a.data.bytes.length a.outcomes.tail := by
  constructor
  · rintro (hn | ⟨hne, -⟩ | ⟨-, hd⟩)
    · exact absurd ha hn
    · exact absurd hs hne
    · exact hd
  · exact fun hd => Or.inr (Or.inr ⟨hs, hd⟩)

theorem readResponse_frame_ok (ha : a.Answers) (hs : a.status = .ok) :
    ∃ result res left, PipeClient.readResponse a.res a.outcomes a.frame = some (result, res, left) ∧
      (left = [] ↔ ¬a.Unfinished) ∧ (a.Unfinished → a.Regular → result = false) := by
  have hu := unfinished_iff_of_ok ha hs
  have hframe : a.frame = PipeFrames.frame Status.ok.toByte a.data ++ [] := by
    rw [frame, hs, List.append_nil]
  have hdata : a.data.bytes = a.data.bytes ++ [] := (List.append_nil _).symm
  rw [hframe]
  by_cases hl : 1 < a.data.bytes.length
  · obtain ⟨hg, data, hd⟩ | ⟨hg, left, hne, hd⟩ := receiveData_needed a.data a.outcomes.tail hl
    · have hn : ¬a.Unfinished := by
        rw [hu]
        rintro (h1 | hg')
        · omega
        · exact hg hg'
      exact ⟨true, _, [], PipeClient.readResponse_received ha (hdata ▸ hd), iff_of_true rfl hn,
        fun hu' => absurd hu' hn⟩
    · exact ⟨false, _, left, PipeClient.readResponse_aborted ha (hdata ▸ hd),
        iff_of_false hne (not_not.mpr (hu.mpr (Or.inr hg))), fun _ _ => rfl⟩
  · have hd : receiveData a.data.length a.outcomes.tail (a.data.bytes ++ []) =
        some (.received none a.data.bytes) := by
      rw [receiveData, Payload.toNat_length, if_neg hl, List.append_nil]
    refine ⟨true, _, _, PipeClient.readResponse_received ha hd, ?_⟩
    by_cases h1 : a.data.bytes.length = 1
    · refine ⟨?_, fun _ hr => absurd h1 (hr hs)⟩
      exact iff_of_false (List.ne_nil_of_length_eq_add_one h1) (not_not.mpr (hu.mpr (Or.inl h1)))
    · have hnil : a.data.bytes = [] := List.length_eq_zero_iff.mp (by omega)
      have hn : ¬a.Unfinished := by
        rw [hu, hnil]
        rintro (h0 | hg)
        · cases h0
        · exact not_givesUp_zero hg
      exact ⟨iff_of_true hnil hn, fun hu' => absurd hu' hn⟩

/-- What a call leaves of the response to it, if it finds nothing else in the pipe. -/
theorem readResponse_frame (a : PipeCall) :
    ∃ result res left, PipeClient.readResponse a.res a.outcomes a.frame = some (result, res, left) ∧
      (left = [] ↔ ¬a.Unfinished) ∧ (a.Unfinished → a.Regular → result = false) := by
  by_cases ha : a.Answers
  · by_cases hs : a.status = .ok
    · exact readResponse_frame_ok ha hs
    · have hread : PipeClient.readResponse a.res a.outcomes (a.frame ++ []) = _ :=
        PipeClient.readResponse_failed ha hs
      rw [List.append_nil, List.append_nil] at hread
      have hu := unfinished_iff_of_not_ok ha hs
      exact ⟨false, _, _, hread, (not_iff_comm.mp hu.symm).symm, fun _ _ => rfl⟩
  · have hlen := length_frame a
    have hle := arriving_of_not_whole ha
    refine ⟨_, _, _, readResponse_not_whole ha (by omega), ?_, fun _ _ => rfl⟩
    refine iff_of_false ?_ (not_not.mpr (Or.inl ha))
    exact List.ne_nil_of_length_pos (by rw [List.length_drop]; omega)

theorem call_idle (h : a.call pipes = some (r, t)) (hp : pipes.response = []) :
    r.size = a.frame.length ∧ r.taken = a.frame.length - t.response.length ∧
      (t.response = [] ↔ ¬a.Unfinished) ∧ (a.Unfinished → a.Regular → r.result = false) := by
  obtain ⟨⟨res, hread⟩, hsize, htaken, -⟩ := call_returns h
  obtain ⟨result, res', left, hread', hleft, hresult⟩ := readResponse_frame a
  rw [hp, List.nil_append, hread'] at hread
  obtain ⟨rfl, hrest⟩ := Prod.mk.inj (Option.some.inj hread)
  obtain ⟨-, rfl⟩ := Prod.mk.inj hrest
  rw [hp, List.length_nil, Nat.zero_add] at htaken
  exact ⟨hsize, htaken, hleft, hresult⟩

theorem finished (h : a.call pipes = some (r, t)) (hp : pipes.response = [])
    (hu : ¬a.Unfinished) : r.taken = r.size ∧ t.response = [] := by
  obtain ⟨hsize, htaken, hleft, -⟩ := call_idle h hp
  have hnil := hleft.mpr hu
  rw [hsize, htaken, hnil]
  exact ⟨rfl, rfl⟩

theorem unfinished (h : a.call pipes = some (r, t)) (hp : pipes.response = [])
    (hu : a.Unfinished) : r.taken < r.size := by
  obtain ⟨hsize, htaken, hleft, -⟩ := call_idle h hp
  have hpos : 0 < t.response.length :=
    List.length_pos_iff.mpr fun hnil => hleft.mp hnil hu
  have hlen := length_frame a
  omega

end PipeCall

/-- The calls over the pipes, after the announcement was consumed. -/
def pipeTransport : Transport PipeCall Pipes where
  call := PipeCall.call
  Idle pipes := pipes.response = []
  Answers := PipeCall.Answers
  Unfinished := PipeCall.Unfinished
  Regular := PipeCall.Regular
  answered_iff_answers := PipeCall.answered_iff_answers
  unanswered := PipeCall.unanswered
  finished := PipeCall.finished
  unfinished := PipeCall.unfinished
  failed h hp := (PipeCall.call_idle h hp).2.2.2

end VpTesting.PipeReplies

import VpTesting.CStrings
import VpTesting.MqTestingClient
import VpTesting.PipeTestingClient
import VpTesting.ProgramReplies

namespace VpTesting.ReadyCheck

open VpTesting.ByteMemory VpTesting.CStrings VpTesting.MessageQueue VpTesting.Types VpTesting.Pipe
  VpTesting.PipeTestingCommunication VpTesting.PipeTestingClient VpTesting.MqTestingCommunication
  VpTesting.MqTestingClient VpTesting.ProgramReplies

section

/-- The bytes that the check over pipes takes from the response pipe. -/
def takenBytes (available : Bool) (o : ReadOutcome) (pipe : List UInt8) : Option (List UInt8) :=
  if available = true ∧ 6 ≤ pipe.length then (Pipe.read o 6 pipe).bind ReadResult.bytes else none

/-- The check over pipes recognises the announcement in the bytes it has taken, stays in its
buffer of six bytes, and reads no byte behind them but the zero that it has put there. -/
structure PipeExact (c : PipeClient) (taken : Option (List UInt8)) (r : PipeTestingClient.Checked) :
    Prop where
  writes : ∀ i ∈ r.bufferWrites, i < 6
  reads : ∀ i ∈ r.bufferReads, ∃ bytes, taken = some bytes ∧ i ≤ bytes.length
  result : r.result = true ↔ taken = some ready
  started : r.client.mStarted = (c.mStarted || r.result)

/-- Six bytes are read, or five that spell the word without its terminating zero. -/
def PipeOverrun (available : Bool) (o : ReadOutcome) (pipe : List UInt8) : Prop :=
  available = true ∧ 6 ≤ pipe.length ∧
    ∃ more, o = .data more ∧ (5 ≤ more ∨ (more = 4 ∧ pipe.take 5 = readySignal))

theorem ready_eq : ready = readySignal ++ [0] := rfl

/-- The string that is read ends with the zero behind the bytes at the latest. -/
theorem length_string_le (bytes : List UInt8) :
    ((bytes ++ [0]).takeWhile (· ≠ 0)).length ≤ bytes.length := by
  induction bytes with
  | nil => exact Nat.le_refl 0
  | cons b bytes ih =>
    rw [List.cons_append, List.takeWhile_cons]
    split
    · exact Nat.succ_le_succ ih
    · exact Nat.zero_le _

/-- A string that is no longer than the word is the word exactly if its bytes are. -/
theorem string_eq_ready_iff {bytes : List UInt8} (hl : bytes.length ≤ 5) :
    (bytes ++ [0]).takeWhile (· ≠ 0) ++ [0] = ready ↔ bytes = readySignal := by
  constructor
  · intro h
    rw [ready_eq] at h
    have hs := (List.append_inj' h rfl).1
    have hp : readySignal <+: bytes ++ [0] := hs ▸ List.takeWhile_prefix _
    have hlen : readySignal.length = 5 := rfl
    obtain heq | hp := List.prefix_concat_iff.mp hp
    · have hend : ([114, 101, 97, 100] ++ [121] : List UInt8) = bytes ++ [0] := heq
      exact absurd (List.append_inj' hend rfl).2 (by decide)
    · exact (hp.eq_of_length_le (by omega)).symm
  · rintro rfl
    decide

/-- Without bytes taken the check fails and touches nothing. -/
theorem pipeExact_failed (c : PipeClient) (pipe : List UInt8) :
    PipeExact c none ⟨false, c, pipe, [], []⟩ where
  writes := List.forall_mem_nil _
  reads := List.forall_mem_nil _
  result := iff_of_false Bool.false_ne_true (nomatch ·)
  started := (Bool.or_false _).symm

variable {c : PipeClient} {available : Bool} {o : ReadOutcome} {pipe : List UInt8}
  {r : PipeTestingClient.Checked}

/-- What the check makes of the bytes it has read. -/
def compared (c : PipeClient) (bytes left : List UInt8) : PipeTestingClient.Checked :=
  if (bytes ++ [0]).takeWhile (· ≠ 0) ++ [0] = ready then
    ⟨true, { c with mStarted := true }, left, List.range (bytes.length + 1),
      List.range (((bytes ++ [0]).takeWhile (· ≠ 0)).length + 1)⟩
  else ⟨false, c, left, List.range (bytes.length + 1),
    List.range (((bytes ++ [0]).takeWhile (· ≠ 0)).length + 1)⟩

theorem checkForReady_eq (ha : available = true) (hl : 6 ≤ pipe.length) :
    c.checkForReady available o pipe = (Pipe.read o 6 pipe).map fun r =>
      match r.bytes with
      | none => ⟨false, c, r.pipe, [], []⟩
      | some bytes => compared c bytes r.pipe :=
  (if_pos ha).trans (if_neg (Nat.not_lt.mpr hl))

theorem bufferWrites_compared (c : PipeClient) (bytes left : List UInt8) :
    (compared c bytes left).bufferWrites = List.range (bytes.length + 1) := by
  unfold compared
  split <;> rfl

/-- Fewer than six bytes were read. -/
theorem pipeExact_short {bytes left : List UInt8} (hl : bytes.length ≤ 5) :
    PipeExact c (some bytes) (compared c bytes left) ↔ bytes ≠ readySignal := by
  have hne : some bytes ≠ some ready := by
    intro h
    have hlen := congrArg List.length (Option.some.inj h)
    have h6 : ready.length = 6 := rfl
    omega
  by_cases hs : bytes = readySignal
  · have hr : compared c bytes left = _ := if_pos ((string_eq_ready_iff hl).mpr hs)
    rw [hr]
    exact iff_of_false (fun he => hne (he.result.mp rfl)) (not_not.mpr hs)
  · have hr : compared c bytes left = _ := if_neg fun h => hs ((string_eq_ready_iff hl).mp h)
    rw [hr]
    refine iff_of_true ⟨fun i hi => ?_, fun i hi => ⟨bytes, rfl, ?_⟩, ?_, ?_⟩ hs
    · have hlt := List.mem_range.mp hi
      omega
    · have hlt := List.mem_range.mp hi
      have hle := length_string_le bytes
      omega
    · exact iff_of_false Bool.false_ne_true hne
    · exact (Bool.or_false _).symm

theorem not_pipeExact_six {taken : Option (List UInt8)} {bytes left : List UInt8}
    (hl : bytes.length = 6) : ¬PipeExact c taken (compared c bytes left) := by
  intro he
  have hmem : 6 ∈ (compared c bytes left).bufferWrites := by
    rw [bufferWrites_compared, hl]
    exact List.mem_range.mpr (Nat.lt_succ_self 6)
  exact Nat.lt_irrefl 6 (he.writes 6 hmem)

/-- Over pipes the check is exact if it reads fewer than six bytes that are not the word. -/
theorem pipeExact_iff (h : c.checkForReady available o pipe = some r) :
    PipeExact c (takenBytes available o pipe) r ↔ ¬PipeOverrun available o pipe := by
  by_cases hal : available = true ∧ 6 ≤ pipe.length
  · obtain ⟨ha, hl⟩ := hal
    rw [checkForReady_eq ha hl] at h
    rw [takenBytes, if_pos ⟨ha, hl⟩]
    cases o with
    | error =>
      obtain rfl := Option.some.inj h
      refine iff_of_true (pipeExact_failed c pipe) ?_
      rintro ⟨-, -, more, ho, -⟩
      cases ho
    | empty =>
      obtain rfl := Option.some.inj h
      have hnil : ([] : List UInt8).length ≤ 5 := Nat.zero_le 5
      refine iff_of_true ((pipeExact_short hnil).mpr (List.cons_ne_nil _ _).symm) ?_
      rintro ⟨-, -, more, ho, -⟩
      cases ho
    | data more =>
      have hne : pipe.isEmpty = false := by
        rw [List.isEmpty_eq_false_iff]
        exact List.ne_nil_of_length_pos (by omega)
      rw [Pipe.read, hne] at h ⊢
      obtain rfl := Option.some.inj h
      have hlen : (pipe.take (min (more + 1) 6)).length = min (more + 1) 6 :=
        List.length_take_of_le (by omega)
      by_cases hm : 5 ≤ more
      · refine iff_of_false (not_pipeExact_six (by omega)) (not_not.mpr ?_)
        exact ⟨ha, hl, more, rfl, Or.inl hm⟩
      · have hmin : min (more + 1) 6 = more + 1 := by omega
        refine (pipeExact_short (by omega)).trans (not_congr ?_)
        rw [hmin] at hlen ⊢
        constructor
        · intro hb
          have h5 : readySignal.length = 5 := rfl
          have h4 : more = 4 := by
            rw [hb, h5] at hlen
            omega
          subst h4
          exact ⟨ha, hl, 4, rfl, Or.inr ⟨rfl, hb⟩⟩
        · rintro ⟨-, -, _, ⟨⟩, h5 | ⟨rfl, hb⟩⟩
          · exact absurd h5 hm
          · exact hb
  · have hr : r = ⟨false, c, pipe, [], []⟩ := by
      rw [PipeClient.checkForReady] at h
      by_cases ha : available = true
      · have hl : pipe.length < 6 := Nat.not_le.mp fun hl => hal ⟨ha, hl⟩
        rw [if_pos ha, if_pos hl] at h
        exact (Option.some.inj h).symm
      · rw [if_neg ha] at h
        exact (Option.some.inj h).symm
    rw [takenBytes, if_neg hal, hr]
    exact iff_of_true (pipeExact_failed c pipe) fun ho => hal ⟨ho.1, ho.2.1⟩

end

section

/-- The message that the check over queues takes from the response queue. -/
def takenMessage : List (Reply Queue UInt8) → Option Message
  | _ :: .received (.ok message) :: _ => some message
  | _ => none

/-- The buffer with the message and the zero behind it. -/
def filled (memory : Nat → UInt8) (message : Message) : Buffer UInt8 :=
  (({ memory } : Buffer UInt8).copy 0 message).copy message.length [0]

/-- The check over queues recognises the announcement in the message it has taken, stays in
its buffer, and reads no byte behind the message but the zero that it has put there. -/
structure MqExact (c : MqClient) (taken : Option Message) (r : MqTestingClient.Checked) :
    Prop where
  writes : ∀ i ∈ r.bufferWrites, i < mqMaxLength
  reads : ∀ i ∈ r.bufferReads, ∃ message, taken = some message ∧ i < message.length
  stringReads : ∀ i ∈ r.stringReads, ∃ message, taken = some message ∧ i ≤ message.length
  result : r.result = true ↔ taken = some (readyMessage c.mReceiverId)
  started : r.client.mStarted = (c.mStarted || r.result)

/-- The message is too short for a process id; or it is from the right receiver and fills the
buffer, or has more bytes behind the word and a zero. -/
def MqOverrun (c : MqClient) (message : Message) : Prop :=
  message.length < 4 ∨ (receivedPid message = c.mReceiverId ∧
    (message.length = mqMaxLength ∨ readySignal ++ [0] <+: message.drop 4))

variable {c : MqClient} {memory : Nat → UInt8} {message : Message} {r : MqTestingClient.Checked}

theorem filled_terminated (memory : Nat → UInt8) (message : Message) :
    (filled memory message).memory message.length = 0 := by
  simp [filled, Buffer.copy]

theorem slice_filled (memory : Nat → UInt8) (message : Message) :
    slice (filled memory message).memory 0 (message.length + 1) = message ++ [0] := by
  have h0 := Buffer.slice_copy ({ memory } : Buffer UInt8) 0 message
  have h1 := Buffer.slice_copy (({ memory } : Buffer UInt8).copy 0 message) message.length [0]
  rw [Nat.zero_add, slice_zero, List.nil_append] at h0
  rwa [h0] at h1

theorem slice_filled_word (hl : 4 ≤ message.length) :
    slice (filled memory message).memory 4 (message.length - 4 + 1) = message.drop 4 ++ [0] := by
  have hn : 4 + (message.length - 4 + 1) = message.length + 1 := by omega
  have hd := drop_slice (filled memory message).memory 0 4 (message.length - 4 + 1)
  rw [hn, slice_filled, List.drop_append_of_le_length hl] at hd
  exact hd.symm

/-- The word is there alone, or with a zero and any bytes behind it. -/
theorem isReady_filled_iff (hl : 4 ≤ message.length) :
    IsReady (filled memory message) ↔
      message.drop 4 = readySignal ∨ readySignal ++ [0] <+: message.drop 4 := by
  have hw : slice (filled memory message).memory 4 (message.length - 4 + 1) =
      message.drop 4 ++ [0] := slice_filled_word hl
  have hlen : (message.drop 4).length = message.length - 4 := List.length_drop
  have h5 : readySignal.length = 5 := rfl
  rw [isReady_iff]
  by_cases h9 : 9 ≤ message.length
  · have htake := take_slice (filled memory message).memory 4
      (show 6 ≤ message.length - 4 + 1 by omega)
    have hc : readySignal ++ [0] = message.drop 4 ++ [0] ↔ message.drop 4 = readySignal := by
      rw [List.append_left_inj, eq_comm]
    rw [← htake, hw, eq_comm, ← hc, ← List.prefix_concat_iff]
    exact List.prefix_iff_eq_take.symm
  · have hfew : message.length - 4 + 1 ≤ 5 := by omega
    refine iff_of_false (fun h => ?_) ?_
    · have htake := take_slice (filled memory message).memory 4
        (show message.length - 4 + 1 ≤ 6 by omega)
      rw [h, hw, List.take_append_of_le_length (by omega)] at htake
      have hzero : 0 ∈ readySignal.take (message.length - 4 + 1) := by
        rw [htake]
        exact List.mem_append_right _ (List.mem_singleton.mpr rfl)
      exact absurd (List.mem_of_mem_take hzero) (by decide)
    · rintro (heq | hp)
      · rw [heq] at hlen
        omega
      · have hle := hp.length_le
        rw [List.length_append, hlen] at hle
        omega

/-- What the check makes of a message. -/
def arrived (c : MqClient) (memory : Nat → UInt8) (message : Message) :
    MqTestingClient.Checked :=
  if MqClient.checkedPid memory message = c.mReceiverId then
    if IsReady (filled memory message) then
      ⟨true, { c with mStarted := true }, (filled memory message).written, List.range 4,
        scanned (filled memory message).memory 4 (mqMaxLength - 3)⟩
    else ⟨false, c, (filled memory message).written, List.range 4,
      scanned (filled memory message).memory 4 (mqMaxLength - 3)⟩
  else ⟨false, c, (({ memory } : Buffer UInt8).copy 0 message).written,
    List.range 4 ++ List.range message.length, []⟩

theorem arrived_of_replay {replies : List (Reply Queue UInt8)}
    (h : replay replies (c.readyArrived memory (.ok message)) = some r) :
    r = arrived c memory message := by
  have hfilled : (({ memory } : Buffer UInt8).copy 0 message).copy message.length [0] =
      filled memory message := rfl
  rw [MqClient.readyArrived] at h
  by_cases hp : MqClient.checkedPid memory message = c.mReceiverId
  · have hn : ¬bytesToPid (slice (({ memory } : Buffer UInt8).copy 0 message).memory 0 4) ≠
        c.mReceiverId := not_not.mpr hp
    rw [if_neg hn, hfilled] at h
    rw [arrived, if_pos hp]
    by_cases hr : IsReady (filled memory message)
    · rw [if_pos hr] at h ⊢
      exact (replay_done h).2
    · rw [if_neg hr] at h ⊢
      exact (replay_done h).2
  · have hn : bytesToPid (slice (({ memory } : Buffer UInt8).copy 0 message).memory 0 4) ≠
        c.mReceiverId := hp
    rw [if_pos hn] at h
    rw [arrived, if_neg hp]
    obtain ⟨success, rest, -, h⟩ := replay_mqSend h
    exact (replay_done h).2

theorem mem_written_filled {i : Nat} :
    i ∈ (filled memory message).written ↔ i ≤ message.length := by
  have hw : (filled memory message).written =
      List.range' 0 message.length ++ List.range' message.length 1 := by
    simp [filled, Buffer.copy]
  rw [hw, List.mem_append, List.mem_range'_1, List.mem_range'_1]
  omega

theorem mem_written_copy {i : Nat} :
    i ∈ (({ memory } : Buffer UInt8).copy 0 message).written ↔ i < message.length := by
  have hw : (({ memory } : Buffer UInt8).copy 0 message).written =
      List.range' 0 message.length := by simp [Buffer.copy]
  rw [hw, List.mem_range'_1]
  omega

/-- A message with a process id that is not that of the receiver is left alone. -/
theorem mqExact_foreign (hl : 4 ≤ message.length) (hm : message.length ≤ mqMaxLength)
    (hp : receivedPid message ≠ c.mReceiverId) :
    MqExact c (some message) (arrived c memory message) := by
  have hc : MqClient.checkedPid memory message ≠ c.mReceiverId := by
    rwa [MqClient.checkedPid_eq hl]
  rw [arrived, if_neg hc]
  refine ⟨fun i hi => ?_, fun i hi => ⟨message, rfl, ?_⟩, List.forall_mem_nil _, ?_,
    (Bool.or_false _).symm⟩
  · exact Nat.lt_of_lt_of_le (mem_written_copy.mp hi) hm
  · obtain hi | hi := List.mem_append.mp hi
    · exact Nat.lt_of_lt_of_le (List.mem_range.mp hi) hl
    · exact List.mem_range.mp hi
  · refine iff_of_false Bool.false_ne_true fun h => hp ?_
    exact ((eq_readyMessage_iff hl).mp (Option.some.inj h)).1

/-- A message from the receiver is recognised by what is behind its process id. -/
theorem mqExact_own_iff (hl : 4 ≤ message.length) (hm : message.length ≤ mqMaxLength)
    (hp : receivedPid message = c.mReceiverId) :
    MqExact c (some message) (arrived c memory message) ↔
      message.length ≠ mqMaxLength ∧ ¬readySignal ++ [0] <+: message.drop 4 := by
  have hc : MqClient.checkedPid memory message = c.mReceiverId := by
    rwa [MqClient.checkedPid_eq hl]
  have ha : arrived c memory message = ⟨decide (IsReady (filled memory message)),
      { c with mStarted := c.mStarted || decide (IsReady (filled memory message)) },
      (filled memory message).written, List.range 4,
      scanned (filled memory message).memory 4 (mqMaxLength - 3)⟩ := by
    rw [arrived, if_pos hc]
    by_cases hr : IsReady (filled memory message)
    · simp [hr]
    · simp [hr]
  have hready : some message = some (readyMessage c.mReceiverId) ↔
      message.drop 4 = readySignal := by
    rw [Option.some.injEq, eq_readyMessage_iff hl]
    exact and_iff_right hp
  rw [ha]
  constructor
  · intro he
    constructor
    · intro hfull
      have hlt := he.writes message.length (mem_written_filled.mpr (Nat.le_refl _))
      exact absurd hfull (Nat.ne_of_lt hlt)
    · intro hprefix
      have hr : IsReady (filled memory message) := (isReady_filled_iff hl).mpr (Or.inr hprefix)
      have hd := hready.mp (he.result.mp (decide_eq_true hr))
      have hle := hprefix.length_le
      rw [hd, List.length_append] at hle
      exact absurd hle (by decide)
  · rintro ⟨hfull, hprefix⟩
    refine ⟨fun i hi => ?_, fun i hi => ⟨message, rfl, ?_⟩, fun i hi => ⟨message, rfl, ?_⟩, ?_,
      rfl⟩
    · have hle := mem_written_filled.mp hi
      omega
    · exact Nat.lt_of_lt_of_le (List.mem_range.mp hi) hl
    · exact le_of_mem_scanned hi hl (filled_terminated memory message)
    · rw [hready, decide_eq_true_iff, isReady_filled_iff hl, or_iff_left hprefix]

/-- The process id is read whatever the length of the message. -/
theorem mem_bufferReads_arrived {i : Nat} (hi : i < 4) :
    i ∈ (arrived c memory message).bufferReads := by
  have hmem := List.mem_range.mpr hi
  rw [arrived]
  split_ifs
  · exact hmem
  · exact hmem
  · exact List.mem_append_left _ hmem

theorem mqExact_arrived_iff (hm : message.length ≤ mqMaxLength) :
    MqExact c (some message) (arrived c memory message) ↔ ¬MqOverrun c message := by
  by_cases hl : 4 ≤ message.length
  · have hn : ¬message.length < 4 := Nat.not_lt.mpr hl
    by_cases hp : receivedPid message = c.mReceiverId
    · rw [mqExact_own_iff hl hm hp, MqOverrun, or_iff_right hn, and_iff_right hp, not_or]
    · refine iff_of_true (mqExact_foreign hl hm hp) ?_
      rintro (hs | ⟨ho, -⟩)
      · exact hn hs
      · exact hp ho
  · refine iff_of_false (fun he => ?_) (not_not.mpr (Or.inl (Nat.not_le.mp hl)))
    have hmem : message.length ∈ (arrived c memory message).bufferReads :=
      mem_bufferReads_arrived (Nat.not_le.mp hl)
    obtain ⟨_, ⟨⟩, hlt⟩ := he.reads message.length hmem
    exact Nat.lt_irrefl _ hlt

/-- Without a message taken the check fails and touches nothing. -/
theorem mqExact_failed (c : MqClient) : MqExact c none ⟨false, c, [], [], []⟩ where
  writes := List.forall_mem_nil _
  reads := List.forall_mem_nil _
  stringReads := List.forall_mem_nil _
  result := iff_of_false Bool.false_ne_true (nomatch ·)
  started := (Bool.or_false _).symm

/-- Over queues the check is exact if the message overruns neither its fields nor the buffer. -/
theorem mqExact_iff {replies : List (Reply Queue UInt8)}
    (h : replay replies (c.checkForReady memory) = some r) :
    MqExact c (takenMessage replies) r ↔
      ∀ message, takenMessage replies = some message → ¬MqOverrun c message := by
  obtain ⟨messages, rest, rfl, h⟩ := replay_mqGetattr h
  cases messages with
  | none =>
    obtain ⟨rfl, rfl⟩ := replay_done h
    exact iff_of_true (mqExact_failed c) fun _ hm => nomatch hm
  | some messages =>
    cases messages with
    | zero =>
      obtain ⟨rfl, rfl⟩ := replay_done h
      exact iff_of_true (mqExact_failed c) fun _ hm => nomatch hm
    | succ messages =>
      obtain ⟨arrival, rest, rfl, h, hfits⟩ := replay_mqReceive h
      cases arrival with
      | error e =>
        obtain ⟨rfl, rfl⟩ := replay_done h
        exact iff_of_true (mqExact_failed c) fun _ hm => nomatch hm
      | ok message =>
        obtain rfl := arrived_of_replay h
        refine (mqExact_arrived_iff hfits).trans ⟨?_, fun hall => hall message rfl⟩
        rintro hn _ ⟨⟩
        exact hn

end

/-- The ready checks are exact but where they overrun what they have read. -/
theorem exact_iff (p : PipeClient) (available : Bool) (o : ReadOutcome) (pipe : List UInt8)
    (c : MqClient) (memory : Nat → UInt8) (replies : List (Reply Queue UInt8)) :
    (∀ r, p.checkForReady available o pipe = some r →
      (PipeExact p (takenBytes available o pipe) r ↔ ¬PipeOverrun available o pipe)) ∧
    ∀ r, replay replies (c.checkForReady memory) = some r →
      (MqExact c (takenMessage replies) r ↔
        ∀ message, takenMessage replies = some message → ¬MqOverrun c message) :=
  ⟨fun _ h => pipeExact_iff h, fun _ h => mqExact_iff h⟩

/-- A single byte read from the pipe, and the announcement from the queue. -/
theorem exact_of_announcement :
    (∃ r, PipeClient.checkForReady {} true (.data 0) ready = some r ∧
      PipeExact {} (takenBytes true (.data 0) ready) r) ∧
    ∃ r, replay [.attributes (some 1), .received (.ok (readyMessage 0))]
        (MqClient.checkForReady {} fun _ => 0) = some r ∧
      MqExact {} (some (readyMessage 0)) r := by
  have h := exact_iff {} true (.data 0) ready {} (fun _ => 0)
    [.attributes (some 1), .received (.ok (readyMessage 0))]
  refine ⟨⟨_, rfl, (h.1 _ rfl).mpr ?_⟩, _, rfl, (h.2 _ rfl).mpr ?_⟩
  · rintro ⟨-, -, more, ⟨⟩, h5 | ⟨h4, -⟩⟩
    · exact absurd h5 (by decide)
    · exact absurd h4 (by decide)
  · rintro _ ⟨⟩ (hs | ⟨-, hf | hp⟩)
    · exact absurd hs (by decide)
    · exact absurd hf (by decide)
    · exact absurd hp (by decide)

/-- The announcement is read from the pipe as it was sent. -/
theorem announcement_not_exact :
    ∃ r, PipeClient.checkForReady {} true (.data 5) ready = some r ∧
      ¬PipeExact {} (takenBytes true (.data 5) ready) r := by
  refine ⟨_, rfl, fun he => ?_⟩
  exact Nat.lt_irrefl 6 (he.writes 6 (by decide))

end VpTesting.ReadyCheck

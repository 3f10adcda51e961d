import VpTesting.Polling
import VpTesting.ReadyCheck

namespace VpTesting.ReadyWaiting

open VpTesting.MessageQueue VpTesting.Types VpTesting.Pipe VpTesting.Polling
  VpTesting.PipeTestingCommunication VpTesting.PipeTestingClient VpTesting.MqTestingCommunication
  VpTesting.MqTestingClient

section

/-- Whether six bytes are the announcement. -/
def announces (block : List UInt8) : Bool := block = ready

/-- The whole blocks of six bytes in a stream, from its start on. -/
def blocks (bytes : List UInt8) : List (List UInt8) :=
  (List.range (bytes.length / 6)).map fun k => (bytes.drop (6 * k)).take 6

variable {bytes bytes' : List UInt8} {k : Nat}

theorem blocks_getElem?_of_le (hk : 6 * (k + 1) ≤ bytes.length) :
    (blocks bytes)[k]? = some ((bytes.drop (6 * k)).take 6) := by
  have hlt : k < bytes.length / 6 := by omega
  rw [blocks, List.getElem?_map, List.getElem?_range hlt, Option.map_some]

theorem blocks_getElem?_of_lt (hk : bytes.length < 6 * (k + 1)) : (blocks bytes)[k]? = none := by
  rw [List.getElem?_eq_none_iff, blocks, List.length_map, List.length_range]
  omega

theorem blocks_mono (hp : bytes <+: bytes') : blocks bytes <+: blocks bytes' := by
  obtain ⟨rest, rfl⟩ := hp
  rw [List.prefix_iff_getElem?]
  intro k hk
  have hle : 6 * (k + 1) ≤ bytes.length := by
    rw [blocks, List.length_map, List.length_range] at hk
    omega
  have hle' : 6 * (k + 1) ≤ (bytes ++ rest).length := by
    rw [List.length_append]
    omega
  have hlen : 6 ≤ (bytes.drop (6 * k)).length := by
    rw [List.length_drop]
    omega
  rw [← List.getElem?_eq_getElem hk, blocks_getElem?_of_le hle, blocks_getElem?_of_le hle',
    List.drop_append_of_le_length (by omega), List.take_append_of_le_length hlen]

end

section

/-- What comes in over the response pipe before each check, and which of its calls fail. -/
structure PipeArrivals where
  sent : Nat → List UInt8
  sizeFails : Nat → Bool
  readFails : Nat → Bool

structure PipeWait where
  ready : Bool
  client : PipeClient
  pipe : List UInt8

namespace PipeArrivals

variable (a : PipeArrivals) (c : PipeClient)

/-- What `check_for_ready` makes of the bytes in the pipe, if the loop comes to it. A read of
six bytes that are there returns them all. -/
def checked (n : Nat) (c : PipeClient) (pipe : List UInt8) : Option PipeTestingClient.Checked :=
  c.checkForReady (!a.sizeFails n) (if a.readFails n then .error else .data 5) pipe

/-- The loop in `wait_for_ready` after some checks. -/
def waitForReady : Nat → PipeWait
  | 0 => ⟨false, c, []⟩
  | n + 1 =>
    let s := waitForReady n
    let pipe := s.pipe ++ a.sent n
    if s.ready then { s with pipe }
    else match a.checked n s.client pipe with
      | none => { s with pipe }
      | some r => ⟨r.result, r.client, r.pipe⟩

/-- What has been written to the response pipe before the check. -/
def written (n : Nat) : List UInt8 := (List.range n).flatMap a.sent

theorem written_succ (n : Nat) : a.written (n + 1) = a.written n ++ a.sent n := by
  rw [written, List.range_succ, List.flatMap_append, List.flatMap_singleton, written]

theorem written_mono (n : Nat) : a.written n <+: a.written (n + 1) :=
  ⟨a.sent n, (a.written_succ n).symm⟩

/-- The checks as polls for blocks of six bytes. -/
def channel : Channel (List UInt8) where
  arrived n := blocks (a.written (n + 1))
  grows n := blocks_mono (a.written_mono (n + 1))
  fails n := a.sizeFails n || a.readFails n

end PipeArrivals

/-- Six bytes are compared with the announcement as they are. -/
theorem string_eq_ready_iff_six {block : List UInt8} (hl : block.length = 6) :
    (block ++ [0]).takeWhile (· ≠ 0) ++ [0] = ready ↔ block = ready := by
  constructor
  · intro h
    rw [ReadyCheck.ready_eq] at h ⊢
    have hs := (List.append_inj' h rfl).1
    have h5 : readySignal.length = 5 := rfl
    have hp : readySignal <+: block ++ [0] := hs ▸ List.takeWhile_prefix _
    obtain ⟨rest, rfl⟩ : readySignal <+: block :=
      List.prefix_of_prefix_length_le hp (List.prefix_append block [0]) (by omega)
    have hrest : rest.length = 1 := by
      rw [List.length_append] at hl
      omega
    obtain ⟨x, rfl⟩ := List.length_eq_one_iff.mp hrest
    by_cases hx : x = 0
    · rw [hx]
    · -- the string goes on behind the word
      have hlen := congrArg List.length hs
      simp [readySignal, hx] at hlen
  · rintro rfl
    decide

variable {c : PipeClient} {pipe : List UInt8}

theorem compared_eq {block : List UInt8} (hl : block.length = 6) (left : List UInt8) :
    ReadyCheck.compared c block left = ⟨decide (block = ready),
      { c with mStarted := c.mStarted || decide (block = ready) }, left,
      List.range (block.length + 1),
      List.range (((block ++ [0]).takeWhile (· ≠ 0)).length + 1)⟩ := by
  by_cases he : block = ready
  · rw [ReadyCheck.compared, if_pos ((string_eq_ready_iff_six hl).mpr he), decide_eq_true he,
      Bool.or_true]
  · rw [ReadyCheck.compared, if_neg (mt (string_eq_ready_iff_six hl).mp he),
      decide_eq_false he, Bool.or_false]

/-- A check that does not fail takes the first six bytes. -/
theorem checkForReady_six (hl : 6 ≤ pipe.length) :
    c.checkForReady true (.data 5) pipe =
      some (ReadyCheck.compared c (pipe.take 6) (pipe.drop 6)) := by
  have hlen : (pipe.take 6).length = 6 := List.length_take_of_le hl
  have hne : pipe.take 6 ≠ [] := List.ne_nil_of_length_pos (by omega)
  have hr : Pipe.read (.data 5) (pipe.take 6).length (pipe.take 6 ++ pipe.drop 6) = _ :=
    read_exact (pipe.drop 6) hne (Nat.le_of_eq hlen)
  rw [List.take_append_drop, hlen] at hr
  rw [ReadyCheck.checkForReady_eq rfl hl, hr, Option.map_some]

/-- A check that fails, or that finds fewer bytes, takes none. -/
theorem checkForReady_none {available : Bool} {o : ReadOutcome}
    (hn : available = false ∨ o = .error ∨ pipe.length < 6) :
    c.checkForReady available o pipe = some ⟨false, c, pipe, [], []⟩ := by
  obtain rfl | rfl | hl := hn
  · rfl
  · have he : c.checkForReady available .error pipe =
        if available then if pipe.length < 6 then some ⟨false, c, pipe, [], []⟩
          else some ⟨false, c, pipe, [], []⟩ else some ⟨false, c, pipe, [], []⟩ := rfl
    rw [he, ite_self, ite_self]
  · rw [PipeClient.checkForReady, if_pos hl, ite_self]

namespace PipeArrivals

variable {a : PipeArrivals} {n taken : Nat} {block : List UInt8}

theorem checked_missed (hx : a.channel.next n taken = none) :
    a.checked n c ((a.written (n + 1)).drop (6 * taken)) =
      some ⟨false, c, (a.written (n + 1)).drop (6 * taken), [], []⟩ := by
  rw [checked]
  apply checkForReady_none
  obtain hf | hget := Channel.next_eq_none hx
  · obtain hs | hr := Bool.or_eq_true_iff.mp hf
    · exact Or.inl (by rw [hs, Bool.not_true])
    · exact Or.inr (Or.inl (if_pos hr))
  · refine Or.inr (Or.inr ?_)
    by_contra hl
    rw [List.length_drop] at hl
    rw [channel, blocks_getElem?_of_le (by omega)] at hget
    cases hget

theorem checked_taken (hx : a.channel.next n taken = some block) :
    block.length = 6 ∧ 6 * (taken + 1) ≤ (a.written (n + 1)).length ∧
      a.checked n c ((a.written (n + 1)).drop (6 * taken)) =
        some (ReadyCheck.compared c block ((a.written (n + 1)).drop (6 * (taken + 1)))) := by
  obtain ⟨hf, hget⟩ := Channel.next_eq_some hx
  obtain ⟨hs, hr⟩ := Bool.or_eq_false_iff.mp hf
  have hle : 6 * (taken + 1) ≤ (a.written (n + 1)).length := by
    by_contra hl
    rw [channel, blocks_getElem?_of_lt (Nat.not_le.mp hl)] at hget
    cases hget
  rw [channel, blocks_getElem?_of_le hle] at hget
  obtain rfl := Option.some.inj hget
  have hlen : 6 ≤ ((a.written (n + 1)).drop (6 * taken)).length := by
    rw [List.length_drop]
    omega
  have hd : 6 * (taken + 1) = 6 * taken + 6 := rfl
  refine ⟨List.length_take_of_le hlen, hle, ?_⟩
  rw [checked, hs, hr, hd, ← List.drop_drop]
  exact checkForReady_six hlen

theorem waitForReady_ready (h : (a.waitForReady c n).ready = true) :
    a.waitForReady c (n + 1) =
      { a.waitForReady c n with pipe := (a.waitForReady c n).pipe ++ a.sent n } := by
  rw [waitForReady, if_pos h]

theorem waitForReady_checked {r : PipeTestingClient.Checked}
    (h : (a.waitForReady c n).ready = false)
    (hr : a.checked n (a.waitForReady c n).client ((a.waitForReady c n).pipe ++ a.sent n) =
      some r) :
    a.waitForReady c (n + 1) = ⟨r.result, r.client, r.pipe⟩ := by
  rw [waitForReady, if_neg (Bool.eq_false_iff.mp h), hr]

/-- The state of the loop that has looked at some blocks of what has been written. -/
def looked (c : PipeClient) (written : List UInt8) (l : Looked) : PipeWait :=
  ⟨l.found, { c with mStarted := c.mStarted || l.found }, written.drop (6 * l.taken)⟩

/-- The loop takes the blocks of six bytes one by one. -/
theorem waitForReady_eq (a : PipeArrivals) (c : PipeClient) (n : Nat) :
    a.waitForReady c n = looked c (a.written n) (a.channel.after announces n) ∧
      6 * (a.channel.after announces n).taken ≤ (a.written n).length := by
  have hpipe {n : Nat} {l : Looked} (hw : a.waitForReady c n = looked c (a.written n) l)
      (hle : 6 * l.taken ≤ (a.written n).length) :
      (a.waitForReady c n).pipe ++ a.sent n = (a.written (n + 1)).drop (6 * l.taken) := by
    rw [hw, written_succ, List.drop_append_of_le_length hle, looked]
  have hchecked {n : Nat} {l : Looked} (hw : a.waitForReady c n = looked c (a.written n) l)
      (hle : 6 * l.taken ≤ (a.written n).length) (hf : l.found = false) :
      a.checked n (a.waitForReady c n).client ((a.waitForReady c n).pipe ++ a.sent n) =
        a.checked n c ((a.written (n + 1)).drop (6 * l.taken)) := by
    have hc : (a.waitForReady c n).client = c := by
      rw [hw, looked, hf, Bool.or_false]
    rw [hpipe hw hle, hc]
  apply Channel.rel_after (R := fun n l => a.waitForReady c n = looked c (a.written n) l ∧
    6 * l.taken ≤ (a.written n).length)
  · refine ⟨?_, Nat.zero_le _⟩
    rw [looked, Bool.or_false]
    rfl
  · rintro n l ⟨hw, hle⟩ hf
    refine ⟨?_, hle.trans (a.written_mono n).length_le⟩
    have hready := (congrArg PipeWait.ready hw).trans hf
    rw [waitForReady_ready hready, hpipe hw hle, hw]
    rfl
  · rintro n l ⟨hw, hle⟩ hf hx
    refine ⟨?_, hle.trans (a.written_mono n).length_le⟩
    have hready := (congrArg PipeWait.ready hw).trans hf
    have hr := checked_missed (c := c) hx
    rw [waitForReady_checked hready ((hchecked hw hle hf).trans hr), looked, hf, Bool.or_false]
  · rintro n l block ⟨hw, hle⟩ hf hx
    have hready := (congrArg PipeWait.ready hw).trans hf
    obtain ⟨hlen, hlt, hr⟩ := checked_taken (c := c) hx
    rw [waitForReady_checked hready ((hchecked hw hle hf).trans hr), compared_eq hlen]
    exact ⟨rfl, hlt⟩

/-- The calls do not fail for good. -/
def Fair (a : PipeArrivals) : Prop :=
  ∀ n, ∃ m, n ≤ m ∧ a.sizeFails m = false ∧ a.readFails m = false

theorem fair_channel (hfair : a.Fair) : a.channel.Fair := by
  intro n
  obtain ⟨m, hle, hs, hr⟩ := hfair n
  exact ⟨m, hle, Bool.or_eq_false_iff.mpr ⟨hs, hr⟩⟩

/-- A loop that has ended has taken the bytes up to the announcement. -/
theorem first_of_ready (h : (a.waitForReady c n).ready = true) :
    (a.waitForReady c n).client.mStarted = true ∧
      ∃ k, First announces (blocks (a.written n)) k ∧
        (a.waitForReady c n).pipe = (a.written n).drop (6 * (k + 1)) := by
  obtain ⟨hw, hle⟩ := waitForReady_eq a c n
  rw [hw] at h ⊢
  have hf : (a.channel.after announces n).found = true := h
  obtain ⟨k, hk, hfirst⟩ := Channel.first_of_found hf
  rw [hk] at hle
  refine ⟨?_, k, hfirst.of_prefix (blocks_mono (a.written_mono n)) ?_, ?_⟩
  · rw [looked, hf, Bool.or_true]
  · rw [blocks, List.length_map, List.length_range]
    omega
  · rw [looked, hk]

/-- Over pipes `wait_for_ready` ends if and only if one of the blocks of six bytes that come
in is the announcement, and it takes nothing behind the first of them. -/
theorem ends_iff_block (hfair : a.Fair) :
    ((∃ n, (a.waitForReady c n).ready = true) ↔ ∃ n, ready ∈ blocks (a.written n)) ∧
      ∀ n, (a.waitForReady c n).ready = true →
        (a.waitForReady c n).client.mStarted = true ∧
          ∃ k, First announces (blocks (a.written n)) k ∧
            (a.waitForReady c n).pipe = (a.written n).drop (6 * (k + 1)) := by
  refine ⟨?_, fun n => first_of_ready⟩
  constructor
  · rintro ⟨n, h⟩
    obtain ⟨-, k, hk, -⟩ := first_of_ready h
    obtain ⟨block, hmem, hblock⟩ := hk.mem
    rw [announces, decide_eq_true_iff] at hblock
    exact ⟨n, hblock ▸ hmem⟩
  · rintro ⟨n, h⟩
    have hmem := (blocks_mono (a.written_mono n)).subset h
    obtain ⟨m, hm⟩ := (Channel.found_iff (P := announces) (fair_channel hfair)).mpr
      ⟨n, ready, hmem, decide_eq_true rfl⟩
    refine ⟨m, ?_⟩
    rw [(waitForReady_eq a c m).1]
    exact hm

/-- The announcement comes in two parts, with a byte behind it. -/
def inParts : PipeArrivals where
  sent n := if n = 0 then [114, 101] else if n = 1 then [97, 100, 121, 0, 7] else []
  sizeFails n := n == 0
  readFails _ := false

theorem ends_inParts : ∃ n, (inParts.waitForReady {} n).ready = true := by
  have hfair : inParts.Fair := by
    intro n
    exact ⟨n + 1, Nat.le_succ n, beq_false_of_ne (Nat.succ_ne_zero n), rfl⟩
  exact (ends_iff_block hfair).1.mpr ⟨2, by decide⟩

end PipeArrivals

end

section

/-- What comes into the response queue before each check, which of its calls fail, and what
the memory of its buffer was. -/
structure MqArrivals where
  sent : Nat → List Message
  getattrFails : Nat → Bool
  receiveFails : Nat → Bool
  memory : Nat → Nat → UInt8

structure MqWait where
  ready : Bool
  client : MqClient
  queues : Queue → List Message

namespace MqArrivals

variable (a : MqArrivals) (c : MqClient) (q : Queue → List Message)

/-- What `check_for_ready` makes of the queues, if the loop comes to it. -/
def checked (n : Nat) (c : MqClient) (q : Queue → List Message) :
    Option (MqTestingClient.Checked × (Queue → List Message)) :=
  (c.checkForReady (a.memory n)).run mqAttr [a.getattrFails n, a.receiveFails n, false] q

/-- The queues with what has come in before the check. -/
def sentTo (n : Nat) (q : Queue → List Message) : Queue → List Message :=
  Function.update q .responses (q .responses ++ a.sent n)

/-- The loop in `wait_for_ready` after some checks. -/
def waitForReady : Nat → MqWait
  | 0 => ⟨false, c, q⟩
  | n + 1 =>
    let s := waitForReady n
    let queues := a.sentTo n s.queues
    if s.ready then { s with queues }
    else match a.checked n s.client queues with
      | none => { s with queues }
      | some (r, queues) => ⟨r.result, r.client, queues⟩

/-- What has been sent to the response queue before the check. -/
def sentBefore (n : Nat) : List Message := q .responses ++ (List.range n).flatMap a.sent

theorem sentBefore_succ (n : Nat) : a.sentBefore q (n + 1) = a.sentBefore q n ++ a.sent n := by
  rw [sentBefore, List.range_succ, List.flatMap_append, List.flatMap_singleton, sentBefore,
    List.append_assoc]

/-- The checks as polls for messages. -/
def channel : Channel Message where
  arrived n := a.sentBefore q (n + 1)
  grows n := ⟨a.sent (n + 1), (a.sentBefore_succ q (n + 1)).symm⟩
  fails n := a.getattrFails n || a.receiveFails n

end MqArrivals

/-- Whether the client takes the message for the announcement of its receiver. -/
def isAnnouncement (receiverId : Pid) (message : Message) : Bool :=
  receivedPid message = receiverId ∧
    (message.drop 4 = readySignal ∨ readySignal ++ [0] <+: message.drop 4)

/-- With its own id the client has to look at the rest of the message only. -/
theorem isAnnouncement_own {receiverId : Pid} {message : Message} (memory : Nat → UInt8)
    (hl : 4 ≤ message.length) (hp : receivedPid message = receiverId) :
    isAnnouncement receiverId message = decide (IsReady (ReadyCheck.filled memory message)) := by
  rw [isAnnouncement, decide_eq_decide, ReadyCheck.isReady_filled_iff hl]
  exact and_iff_right hp

namespace MqArrivals

variable {a : MqArrivals} {q : Queue → List Message} {n : Nat} {message : Message}
  {rest : List Message} {receiverId : Pid} {started : Bool}

/-- A check that fails, or that finds no message, leaves the queues as they are. -/
theorem checked_missed
    (hn : a.getattrFails n = true ∨ a.receiveFails n = true ∨ q .responses = []) :
    a.checked n (MqClient.opened receiverId started) q =
      some (⟨false, MqClient.opened receiverId started, [], [], []⟩, q) := by
  have hrun : a.checked n (MqClient.opened receiverId started) q = _ := Program.run_step rfl
  rw [hrun]
  cases hg : a.getattrFails n with
  | true => rfl
  | false =>
    cases hq : q .responses with
    | nil =>
      simp only [MqClient.opened, Option.map_some, hq]
      rfl
    | cons message rest =>
      have hr : a.receiveFails n = true := by
        rw [hg, hq] at hn
        simpa using hn
      simp only [MqClient.opened, Option.map_some, hq, hr]
      rfl

/-- A check that does not fail takes the first message. -/
theorem checked_taken (hg : a.getattrFails n = false) (hr : a.receiveFails n = false)
    (hq : q .responses = message :: rest) (hl : 4 ≤ message.length) :
    ∃ writes reads stringReads, a.checked n (MqClient.opened receiverId started) q =
      some (⟨isAnnouncement receiverId message,
        MqClient.opened receiverId (started || isAnnouncement receiverId message), writes, reads,
        stringReads⟩, Function.update q .responses rest) := by
  rw [checked, hg, hr, MqClient.run_checkForReady [false] hq]
  by_cases hp : receivedPid message = receiverId
  · have hc : MqClient.checkedPid (a.memory n) message = receiverId := by
      rwa [MqClient.checkedPid_eq hl]
    rw [MqClient.readyArrived_own hc, isAnnouncement_own (a.memory n) hl hp]
    exact ⟨_, _, _, Program.run_done _ _⟩
  · have hc : MqClient.checkedPid (a.memory n) message ≠ receiverId := by
      rwa [MqClient.checkedPid_eq hl]
    have ha : isAnnouncement receiverId message = false := decide_eq_false fun h => hp h.1
    rw [MqClient.readyArrived_foreign hc, ha, Bool.or_false]
    exact ⟨_, _, _, rfl⟩

variable {c : MqClient}

theorem waitForReady_ready (h : (a.waitForReady c q n).ready = true) :
    a.waitForReady c q (n + 1) =
      { a.waitForReady c q n with queues := a.sentTo n (a.waitForReady c q n).queues } := by
  rw [waitForReady, if_pos h]

theorem waitForReady_checked {r : MqTestingClient.Checked} {q' : Queue → List Message}
    (h : (a.waitForReady c q n).ready = false)
    (hr : a.checked n (a.waitForReady c q n).client
      (a.sentTo n (a.waitForReady c q n).queues) = some (r, q')) :
    a.waitForReady c q (n + 1) = ⟨r.result, r.client, q'⟩ := by
  rw [waitForReady, if_neg (Bool.eq_false_iff.mp h), hr]

/-- The state of the loop that has looked at some of the messages. -/
def looked (receiverId : Pid) (started : Bool) (q : Queue → List Message)
    (messages : List Message) (l : Looked) : MqWait :=
  ⟨l.found, MqClient.opened receiverId (started || l.found),
    Function.update q .responses (messages.drop l.taken)⟩

/-- The loop takes the messages one by one. -/
theorem waitForReady_eq (hlong : ∀ n, ∀ message ∈ a.sentBefore q n, 4 ≤ message.length)
    (receiverId : Pid) (started : Bool) (n : Nat) :
    a.waitForReady (MqClient.opened receiverId started) q n =
        looked receiverId started q (a.sentBefore q n)
          ((a.channel q).after (isAnnouncement receiverId) n) ∧
      ((a.channel q).after (isAnnouncement receiverId) n).taken ≤ (a.sentBefore q n).length := by
  have hsent (n : Nat) {t : Nat} (hle : t ≤ (a.sentBefore q n).length) :
      a.sentTo n (Function.update q .responses ((a.sentBefore q n).drop t)) =
        Function.update q .responses ((a.sentBefore q (n + 1)).drop t) := by
    rw [sentTo, Function.update_idem, Function.update_self, sentBefore_succ,
      List.drop_append_of_le_length hle]
  have hlen (n : Nat) : (a.sentBefore q n).length ≤ (a.sentBefore q (n + 1)).length := by
    rw [sentBefore_succ, List.length_append]
    exact Nat.le_add_right _ _
  have hchecked {n : Nat} {l : Looked}
      (hw : a.waitForReady (MqClient.opened receiverId started) q n =
        looked receiverId started q (a.sentBefore q n) l)
      (hle : l.taken ≤ (a.sentBefore q n).length) (hf : l.found = false) :
      a.checked n (a.waitForReady (MqClient.opened receiverId started) q n).client
          (a.sentTo n (a.waitForReady (MqClient.opened receiverId started) q n).queues) =
        a.checked n (MqClient.opened receiverId started)
          (Function.update q .responses ((a.sentBefore q (n + 1)).drop l.taken)) := by
    rw [hw, looked, hsent n hle, hf, Bool.or_false]
  apply Channel.rel_after (R := fun n l =>
    a.waitForReady (MqClient.opened receiverId started) q n =
      looked receiverId started q (a.sentBefore q n) l ∧ l.taken ≤ (a.sentBefore q n).length)
  · refine ⟨?_, Nat.zero_le _⟩
    rw [looked, Bool.or_false, List.drop_zero, sentBefore, List.range_zero, List.flatMap_nil,
      List.append_nil, Function.update_eq_self]
    rfl
  · rintro n l ⟨hw, hle⟩ hf
    refine ⟨?_, hle.trans (hlen n)⟩
    have hready := (congrArg MqWait.ready hw).trans hf
    rw [waitForReady_ready hready, hw, looked, hsent n hle]
    rfl
  · rintro n l ⟨hw, hle⟩ hf hx
    refine ⟨?_, hle.trans (hlen n)⟩
    have hready := (congrArg MqWait.ready hw).trans hf
    have hmissed : a.getattrFails n = true ∨ a.receiveFails n = true ∨
        (a.sentBefore q (n + 1)).drop l.taken = [] := by
      obtain h | hget := Channel.next_eq_none hx
      · rw [← or_assoc]
        exact Or.inl (Bool.or_eq_true_iff.mp h)
      · exact Or.inr (Or.inr (List.drop_eq_nil_iff.mpr (List.getElem?_eq_none_iff.mp hget)))
    rw [waitForReady_checked hready ((hchecked hw hle hf).trans (checked_missed ?_)), looked, hf,
      Bool.or_false]
    rwa [Function.update_self]
  · rintro n l message ⟨hw, hle⟩ hf hx
    have hready := (congrArg MqWait.ready hw).trans hf
    obtain ⟨hfails, hget⟩ := Channel.next_eq_some hx
    obtain ⟨hg, hr⟩ := Bool.or_eq_false_iff.mp hfails
    obtain ⟨hlt, rfl⟩ := List.getElem?_eq_some_iff.mp hget
    have hcons := (Function.update_self Queue.responses _ q).trans
      (List.drop_eq_getElem_cons hlt)
    obtain ⟨writes, reads, stringReads, hrun⟩ := checked_taken hg hr hcons
      (hlong (n + 1) _ (List.getElem_mem hlt))
    rw [waitForReady_checked hready ((hchecked hw hle hf).trans hrun), Function.update_idem]
    exact ⟨rfl, hlt⟩

/-- The calls do not fail for good. -/
def Fair (a : MqArrivals) : Prop :=
  ∀ n, ∃ m, n ≤ m ∧ a.getattrFails m = false ∧ a.receiveFails m = false

theorem fair_channel (hfair : a.Fair) : (a.channel q).Fair := by
  intro n
  obtain ⟨m, hle, hg, hr⟩ := hfair n
  exact ⟨m, hle, Bool.or_eq_false_iff.mpr ⟨hg, hr⟩⟩

/-- A loop that has ended has taken the announcement and every message ahead of it. -/
theorem first_of_ready (hlong : ∀ n, ∀ message ∈ a.sentBefore q n, 4 ≤ message.length)
    (h : (a.waitForReady (MqClient.opened receiverId started) q n).ready = true) :
    ∃ k, First (isAnnouncement receiverId) (a.sentBefore q n) k ∧
      a.waitForReady (MqClient.opened receiverId started) q n =
        ⟨true, MqClient.opened receiverId true,
          Function.update q .responses ((a.sentBefore q n).drop (k + 1))⟩ := by
  obtain ⟨hw, hle⟩ := waitForReady_eq hlong receiverId started n
  rw [hw] at h ⊢
  have hf : ((a.channel q).after (isAnnouncement receiverId) n).found = true := h
  obtain ⟨k, hk, hfirst⟩ := Channel.first_of_found hf
  rw [hk] at hle
  refine ⟨k, hfirst.of_prefix ?_ hle, ?_⟩
  · exact ⟨a.sent n, (a.sentBefore_succ q n).symm⟩
  · rw [looked, hf, hk, Bool.or_true]

/-- Over queues `wait_for_ready` ends if and only if the announcement of the receiver comes
in. The messages ahead of it are then gone, whichever client they were for. -/
theorem ends_iff_message (hlong : ∀ n, ∀ message ∈ a.sentBefore q n, 4 ≤ message.length)
    (hfair : a.Fair) :
    ((∃ n, (a.waitForReady (MqClient.opened receiverId started) q n).ready = true) ↔
      ∃ n, ∃ message ∈ a.sentBefore q n, isAnnouncement receiverId message = true) ∧
      ∀ n, (a.waitForReady (MqClient.opened receiverId started) q n).ready = true →
        ∃ k, First (isAnnouncement receiverId) (a.sentBefore q n) k ∧
          a.waitForReady (MqClient.opened receiverId started) q n =
            ⟨true, MqClient.opened receiverId true,
              Function.update q .responses ((a.sentBefore q n).drop (k + 1))⟩ := by
  refine ⟨?_, fun n => first_of_ready hlong⟩
  constructor
  · rintro ⟨n, h⟩
    obtain ⟨k, hk, -⟩ := first_of_ready hlong h
    exact ⟨n, hk.mem⟩
  · rintro ⟨n, message, hmem, ha⟩
    have hmem' : message ∈ a.sentBefore q (n + 1) := by
      rw [sentBefore_succ]
      exact List.mem_append_left _ hmem
    obtain ⟨m, hm⟩ := (Channel.found_iff (P := isAnnouncement receiverId)
      (fair_channel (q := q) hfair)).mpr ⟨n, message, hmem', ha⟩
    refine ⟨m, ?_⟩
    rw [(waitForReady_eq hlong receiverId started m).1]
    exact hm

/-- The announcement of process 1 is behind that of process 2. -/
theorem ends_behind_other :
    ∃ n, (waitForReady ⟨fun _ => [], fun n => n == 0, fun _ => false, fun _ _ => 0⟩
      (MqClient.opened 1 false) (fun _ => [readyMessage 2, readyMessage 1]) n).ready = true := by
  refine (ends_iff_message ?_ ?_).1.mpr ⟨0, readyMessage 1, ?_, by decide⟩
  · intro n message hm
    have hm : message ∈ [readyMessage 2, readyMessage 1] := by simpa [sentBefore] using hm
    obtain rfl | rfl := List.mem_pair.mp hm
    · decide
    · decide
  · intro n
    exact ⟨n + 1, Nat.le_succ n, beq_false_of_ne (Nat.succ_ne_zero n), rfl⟩
  · decide

end MqArrivals

end

end VpTesting.ReadyWaiting

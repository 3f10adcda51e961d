import VpTesting.QueueSessions
import VpTesting.ReadyWaiting

namespace VpTesting.QueueLaunches

open VpTesting.MessageQueue VpTesting.Types VpTesting.Completion VpTesting.HandlerCalls
  VpTesting.MqTestingCommunication VpTesting.MqTestingClient VpTesting.MqProcesses
  VpTesting.TestPrograms VpTesting.QueueSessions VpTesting.ReadyWaiting

variable {α σ : Type}

/-- The process of a test program, in a check of `wait_for_ready` or behind it. -/
inductive LaunchedTester (α : Type)
  | waiting (check : MqProgram Checked) (p : TestProgram α)
  | testing (T : Tester α)

/-- The process of a receiver, in the `start` of its communication or in `receiver_loop`. -/
inductive LaunchedReceiver (σ : Type)
  | starting (start : MqProgram (Bool × MqCommunication)) (R : TestedReceiver σ)
  | answering (A : Answerer σ)

/-- The tester after a call: in the same check, in the next one or behind the last. -/
def LaunchedTester.after (memory : Nat → UInt8) (p : TestProgram α) :
    MqProgram Checked → LaunchedTester α
  | .done r =>
    if r.result then .testing ⟨(), overQueues r.client memory p⟩
    else .waiting (r.client.checkForReady memory) p
  | check => .waiting check p

/-- The receiver after a call. `set_communication` does not look at the result of `start`. -/
def LaunchedReceiver.after (R : TestedReceiver σ) :
    MqProgram (Bool × MqCommunication) → LaunchedReceiver σ
  | .done r => .answering ⟨R, ReceiverProcess.receiving r.2⟩
  | start => .starting start R

structure Launch (α σ : Type) where
  tester : LaunchedTester α
  receiver : LaunchedReceiver σ
  queues : Queues

/-- One call of either process. None is made to fail. A look at an empty queue changes nothing and
is no step: the loop may look as often as it likes. -/
inductive Step (h : Handlers σ) (pid : Pid) (memory : Nat → UInt8) :
    Launch α σ → Launch α σ → Prop
  | check {check check' : MqProgram Checked} {p : TestProgram α} {R : LaunchedReceiver σ}
    {q q' : Queues} {e : Event Queue UInt8}
    (hs : check.step mqAttr false q = some ⟨check', q', e⟩)
    (ht : LaunchedTester.after memory p check' ≠ .waiting check p ∨ q' ≠ q) :
    Step h pid memory ⟨.waiting check p, R, q⟩ ⟨.after memory p check', R, q'⟩
  | tester {T T' : Tester α} {R : LaunchedReceiver σ} {q q' : Queues}
    (hT : (testing (MqClient.opened pid true) memory).Step mqAttr False T q T' q') :
    Step h pid memory ⟨.testing T, R, q⟩ ⟨.testing T', R, q'⟩
  | start {T : LaunchedTester α} {start start' : MqProgram (Bool × MqCommunication)}
    {R : TestedReceiver σ} {q q' : Queues} {e : Event Queue UInt8}
    (hs : start.step mqAttr false q = some ⟨start', q', e⟩) :
    Step h pid memory ⟨T, .starting start R, q⟩ ⟨T, .after R start', q'⟩
  | receiver {T : LaunchedTester α} {A A' : Answerer σ} {q q' : Queues}
    (hA : (answering h).Step mqAttr False A q A' q') :
    Step h pid memory ⟨T, .answering A, q⟩ ⟨T, .answering A', q'⟩

/-- A session is a launch behind its start. -/
def launched (s : Session α σ) : Launch α σ := ⟨.testing s.tester, .answering s.receiver, s.queues⟩

theorem step_launched_iff {h : Handlers σ} {pid : Pid} {memory : Nat → UInt8} (s : Session α σ)
    (u : Launch α σ) :
    Step h pid memory (launched s) u ↔
      ∃ t, QueueSessions.Step h (MqClient.opened pid true) memory s t ∧ launched t = u := by
  constructor
  · intro hs
    cases hs with
    | tester hT => exact ⟨_, .tester hT, rfl⟩
    | receiver hA => exact ⟨_, .receiver hA, rfl⟩
  · rintro ⟨t, ht, rfl⟩
    cases ht with
    | tester hP => exact .tester hP
    | receiver hP => exact .receiver hP

theorem launched_injective : Function.Injective (launched : Session α σ → Launch α σ) := by
  rintro ⟨T, A, q⟩ ⟨T', A', q'⟩ he
  cases he
  rfl

/-- A message that a check drops. -/
def Stale (pid : Pid) (message : Message) : Prop :=
  4 ≤ message.length ∧ isAnnouncement pid message = false

instance (pid : Pid) : DecidablePred (Stale pid) := fun _ => inferInstanceAs (Decidable (_ ∧ _))

section

variable {pid : Pid} {memory : Nat → UInt8} {message : Message} {q : Queues}

theorem isAnnouncement_readyMessage (pid : Pid) : isAnnouncement pid (readyMessage pid) = true := by
  have hl : 4 ≤ (readyMessage pid).length := by
    rw [length_readyMessage]
    decide
  obtain ⟨hp, hd⟩ := (eq_readyMessage_iff hl).mp rfl
  exact decide_eq_true ⟨hp, Or.inl hd⟩

/-- A message with the id of the receiver ends a check. -/
theorem readyArrived_own (memory : Nat → UInt8) (hl : 4 ≤ message.length)
    (hp : receivedPid message = pid) :
    ∃ writes reads stringReads, (MqClient.opened pid false).readyArrived memory (.ok message) =
      .done ⟨isAnnouncement pid message, MqClient.opened pid (isAnnouncement pid message),
        writes, reads, stringReads⟩ := by
  have hc : MqClient.checkedPid memory message = pid := by rwa [MqClient.checkedPid_eq hl]
  rw [MqClient.readyArrived_own hc, isAnnouncement_own memory hl hp]
  exact ⟨_, _, _, rfl⟩

/-- A stale message is dropped at once, or in the vain attempt to put it back. -/
theorem readyArrived_stale (memory : Nat → UInt8) (hs : Stale pid message) :
    ∃ writes reads stringReads,
      (MqClient.opened pid false).readyArrived memory (.ok message) =
        .done ⟨false, MqClient.opened pid false, writes, reads, stringReads⟩ ∨
      (MqClient.opened pid false).readyArrived memory (.ok message) =
        .mqSend (some { queue := .responses, access := .readOnly }) message
          fun _ => .done ⟨false, MqClient.opened pid false, writes, reads, stringReads⟩ := by
  obtain ⟨hl, hn⟩ := hs
  by_cases hp : receivedPid message = pid
  · obtain ⟨writes, reads, stringReads, hr⟩ := readyArrived_own memory hl hp
    rw [hn] at hr
    exact ⟨writes, reads, stringReads, Or.inl hr⟩
  · have hc : MqClient.checkedPid memory message ≠ pid := by rwa [MqClient.checkedPid_eq hl]
    exact ⟨_, _, _, Or.inr (MqClient.readyArrived_foreign hc)⟩

theorem readyArrived_announcement (pid : Pid) (memory : Nat → UInt8) :
    ∃ writes reads stringReads,
      (MqClient.opened pid false).readyArrived memory (.ok (readyMessage pid)) =
        .done ⟨true, MqClient.opened pid true, writes, reads, stringReads⟩ := by
  have hl : 4 ≤ (readyMessage pid).length := by
    rw [length_readyMessage]
    decide
  obtain ⟨writes, reads, stringReads, hr⟩ :=
    readyArrived_own memory hl ((eq_readyMessage_iff hl).mp rfl).1
  rw [isAnnouncement_readyMessage] at hr
  exact ⟨writes, reads, stringReads, hr⟩

end

/-- The second half of `start`. -/
def openingResponses (pid : Pid) (mCurrentReq : Request) : MqProgram (Bool × MqCommunication) :=
  .mqOpen .responses .writeOnly fun mMqtResponses =>
    let c := { MqCommunication.opened pid with mMqtResponses, mCurrentReq }
    if mMqtResponses.isNone then .done (false, c) else c.announce

section

variable {pid : Pid} {R R' : TestedReceiver σ} {A : LaunchedReceiver σ} {n : Nat} {q q' : Queues}
  {start start' : MqProgram (Bool × MqCommunication)} {left behind : List Message}
  {e : Event Queue UInt8}

/-- Where the receiver is, with a bound on its calls to come before it waits for a request, and
what it has sent. -/
inductive Announces (pid : Pid) (R : TestedReceiver σ) :
    Nat → LaunchedReceiver σ → List Message → Prop
  | opening :
    Announces pid R 3 (.starting (MqCommunication.start { pid, mCurrentReq := R.mCurrentReq }) R) []
  | openingResponses :
    Announces pid R 2 (.starting (openingResponses pid R.mCurrentReq) R) []
  | announcing :
    Announces pid R 1
      (.starting { MqCommunication.opened pid with mCurrentReq := R.mCurrentReq }.announce R) []
  | announced :
    Announces pid R 0
      (.answering ⟨R, ReceiverProcess.receiving (MqCommunication.listening pid R.mCurrentReq)⟩)
      [readyMessage pid]

theorem Announces.calls (ha : Announces pid R n (.starting start R') behind)
    (hs : start.step mqAttr false q = some ⟨start', q', e⟩) (hq : q .responses = left ++ behind) :
    ∃ m < n, ∃ behind', Announces pid R m (.after R' start') behind' ∧ behind <+: behind' ∧
      q' .requests = q .requests ∧ q' .responses = left ++ behind' := by
  cases ha with
  | opening =>
    cases hs
    exact ⟨2, by decide, [], .openingResponses, List.nil_prefix, rfl, hq⟩
  | openingResponses =>
    cases hs
    exact ⟨1, by decide, [], .announcing, List.nil_prefix, rfl, hq⟩
  | announcing =>
    have hl : (readyMessage pid).length ≤ mqAttr.messageSize := by
      rw [length_readyMessage]
      decide
    simp only [MqCommunication.announce, MqCommunication.opened, Program.step] at hs
    rw [if_pos ⟨rfl, hl⟩] at hs
    split_ifs at hs with hroom
    cases hs
    refine ⟨0, by decide, _, .announced, List.nil_prefix,
      Function.update_of_ne (by decide) _ _, ?_⟩
    rw [hq, List.append_nil]
    exact Function.update_self _ _ _

/-- It can make its next call while the response queue is empty, until it has sent the
announcement. -/
theorem Announces.can_call (ha : Announces pid R n A []) (hq : q .responses = []) :
    ∃ start R' r, A = .starting start R' ∧ start.step mqAttr false q = some r := by
  cases ha with
  | opening | openingResponses => exact ⟨_, _, _, rfl, rfl⟩
  | announcing =>
    have hl : (readyMessage pid).length ≤ mqAttr.messageSize := by
      rw [length_readyMessage]
      decide
    have hroom : (q .responses).length < mqMaxMsg := by
      rw [hq]
      decide
    exact ⟨_, _, _, rfl, Program.step_mqSend_room rfl hl hroom⟩

end

/-- Where a check is, with a bound on its calls to come. It receives only when there is a
message. -/
inductive Checks (pid : Pid) (memory : Nat → UInt8) :
    Nat → MqProgram Checked → List Message → Prop
  | looking {messages : List Message} :
    Checks pid memory 2 ((MqClient.opened pid false).checkForReady memory) messages
  | receiving {messages : List Message} (hm : messages ≠ []) :
    Checks pid memory 1 (.mqReceive (some { queue := .responses, access := .readOnly }) mqMaxLength
      ((MqClient.opened pid false).readyArrived memory)) messages
  | puttingBack {messages : List Message} {message : Message}
    {writes reads stringReads : List Nat} :
    Checks pid memory 3 (.mqSend (some { queue := .responses, access := .readOnly }) message
      fun _ => .done ⟨false, MqClient.opened pid false, writes, reads, stringReads⟩) messages

section

variable {h : Handlers σ} {pid : Pid} {memory : Nat → UInt8} {R : TestedReceiver σ}
  {p : TestProgram α} {n k : Nat} {check check' : MqProgram Checked} {A : LaunchedReceiver σ}
  {left behind messages messages' : List Message} {q q' : Queues} {e : Event Queue UInt8}
  {s t : Launch α σ}

theorem Checks.mono (hc : Checks pid memory k check messages) (hp : messages <+: messages') :
    Checks pid memory k check messages' := by
  cases hc with
  | looking => exact .looking
  | receiving hm => exact .receiving fun he => hm (List.prefix_nil.mp (he ▸ hp))
  | puttingBack => exact .puttingBack

/-- The tester waits, with so many calls of both processes to come at most before the announcement
is received. -/
inductive Waits (pid : Pid) (memory : Nat → UInt8) (R : TestedReceiver σ) (p : TestProgram α) :
    Nat → Launch α σ → Prop
  | intro {n k : Nat} {check : MqProgram Checked} {A : LaunchedReceiver σ}
    {left behind : List Message} {q : Queues} (hl : ∀ message ∈ left, Stale pid message)
    (hc : Checks pid memory k check (q .responses)) (ha : Announces pid R n A behind)
    (hq : q .requests = []) (hr : q .responses = left ++ behind) :
    Waits pid memory R p (n + k + 3 * left.length) ⟨.waiting check p, A, q⟩

theorem waits_check (hl : ∀ message ∈ left, Stale pid message)
    (hc : Checks pid memory k check (q .responses)) (ha : Announces pid R n A behind)
    (hq : q .requests = []) (hr : q .responses = left ++ behind)
    (hs : check.step mqAttr false q = some ⟨check', q', e⟩)
    (ht : LaunchedTester.after memory p check' ≠ .waiting check p ∨ q' ≠ q) :
    (∃ m < n + k + 3 * left.length, Waits pid memory R p m ⟨.after memory p check', A, q'⟩) ∨
      (⟨.after memory p check', A, q'⟩ : Launch α σ) =
        launched (between (MqClient.opened pid true) memory pid p R) := by
  cases hc with
  | looking =>
    cases hm : q .responses with
    | nil =>
      simp only [MqClient.checkForReady, MqClient.opened, Program.step, Option.map_some, hm] at hs
      cases hs
      exact absurd ⟨rfl, rfl⟩ (not_and_or.mpr ht)
    | cons message rest =>
      simp only [MqClient.checkForReady, MqClient.opened, Program.step, Option.map_some, hm] at hs
      cases hs
      refine Or.inl ⟨_, ?_, .intro hl (.receiving ?_) ha hq hr⟩
      · omega
      · rw [hm]
        exact List.cons_ne_nil message rest
  | receiving hm =>
    cases left with
    | nil =>
      cases ha with
      | opening | openingResponses | announcing => exact absurd hr hm
      | announced =>
        obtain ⟨writes, reads, stringReads, hready⟩ := readyArrived_announcement pid memory
        rw [List.nil_append] at hr
        rw [Program.step_mqReceive_cons (by rfl) (Nat.le_refl mqMaxLength) hr, hready] at hs
        cases hs
        have hempty : Function.update q .responses [] = fun _ => [] := by
          funext queue
          cases queue with
          | requests => exact (Function.update_of_ne (by decide) _ _).trans hq
          | responses => exact Function.update_self _ _ _
        rw [hempty]
        exact Or.inr rfl
    | cons message left =>
      have hstale := hl message List.mem_cons_self
      have hrest : ∀ message ∈ left, Stale pid message := fun m hm =>
        hl m (List.mem_cons_of_mem message hm)
      have hq' : Function.update q .responses (left ++ behind) .requests = [] :=
        (Function.update_of_ne (by decide) _ _).trans hq
      have hr' : Function.update q .responses (left ++ behind) .responses = left ++ behind :=
        Function.update_self _ _ _
      rw [List.cons_append] at hr
      rw [Program.step_mqReceive_cons (by rfl) (Nat.le_refl mqMaxLength) hr] at hs
      obtain ⟨writes, reads, stringReads, hready | hready⟩ := readyArrived_stale memory hstale
      · rw [hready] at hs
        cases hs
        exact Or.inl ⟨_, by rw [List.length_cons]; omega, .intro hrest .looking ha hq' hr'⟩
      · rw [hready] at hs
        cases hs
        exact Or.inl ⟨_, by rw [List.length_cons]; omega, .intro hrest .puttingBack ha hq' hr'⟩
  | puttingBack =>
    rw [Program.step_mqSend_refused (by rintro ⟨⟨⟩, -⟩)] at hs
    cases hs
    exact Or.inl ⟨_, by omega, .intro hl .looking ha hq hr⟩

theorem waits_step (hs : Waits pid memory R p n s) (ht : Step h pid memory s t) :
    (∃ m < n, Waits pid memory R p m t) ∨
      t = launched (between (MqClient.opened pid true) memory pid p R) := by
  obtain @⟨n, k, check, A, left, behind, q, hl, hc, ha, hq, hr⟩ := hs
  cases ht with
  | check hs hn => exact waits_check hl hc ha hq hr hs hn
  | start hs =>
    obtain ⟨m, hlt, behind', ha', hp, hq', hr'⟩ := ha.calls hs hr
    rw [← List.prefix_append_right_inj left, ← hr, ← hr'] at hp
    exact Or.inl ⟨_, by omega, .intro hl (hc.mono hp) ha' (hq'.trans hq) hr'⟩
  | receiver hA =>
    cases ha with
    | announced => exact absurd hA (receiver_waits hq _ _)

theorem can_check (hc : Checks pid memory k check (q .responses)) (hq : q .responses ≠ []) :
    ∃ t, Step h pid memory ⟨.waiting check p, A, q⟩ t := by
  obtain ⟨message, rest, hr⟩ := List.exists_cons_of_ne_nil hq
  cases hc with
  | looking =>
    have hs : ((MqClient.opened pid false).checkForReady memory).step mqAttr false q =
        some ⟨.mqReceive (some { queue := .responses, access := .readOnly }) mqMaxLength
          ((MqClient.opened pid false).readyArrived memory), q, .silent⟩ := by
      simp only [MqClient.checkForReady, MqClient.opened, Program.step, Option.map_some, hr]
      rfl
    refine ⟨_, .check hs (Or.inl ?_)⟩
    rintro ⟨⟩
  | receiving =>
    refine ⟨_, .check (Program.step_mqReceive_cons (by rfl) (Nat.le_refl mqMaxLength) hr)
      (Or.inr fun he => ?_)⟩
    have hself := congrFun he .responses
    rw [Function.update_self, hr] at hself
    exact List.cons_ne_self message rest hself.symm
  | puttingBack =>
    refine ⟨_, .check (Program.step_mqSend_refused (by rintro ⟨⟨⟩, -⟩)) (Or.inl ?_)⟩
    rintro ⟨⟩

theorem waits_go (hs : Waits pid memory R p n s) : ∃ t, Step h pid memory s t := by
  obtain @⟨n, k, check, A, left, behind, q, hl, hc, ha, hq, hr⟩ := hs
  by_cases he : q .responses = []
  · obtain ⟨rfl, rfl⟩ := List.append_eq_nil_iff.mp (hr.symm.trans he)
    obtain ⟨start, R', r, rfl, hstep⟩ := ha.can_call he
    exact ⟨_, .start hstep⟩
  · exact can_check hc he

/-- From its launch on, too: a test program that waits for the announcement of its receiver comes to
what it would come to with direct calls, if and only if every response on the way fits in a
message, whatever other messages were left in the response queue. -/
theorem launch_completes_iff (h : Handlers σ) (memory : Nat → UInt8) (pid : Pid)
    (R : TestedReceiver σ) (p : TestProgram α) (left : List Message)
    (hl : ∀ message ∈ left, Stale pid message) (hq : RequestsFit h R p) :
    Completes (Step h pid memory)
        ⟨.waiting ((MqClient.opened pid false).checkForReady memory) p,
          .starting (MqCommunication.start { pid, mCurrentReq := R.mCurrentReq }) R,
          Function.update (fun _ => []) .responses left⟩
        (launched (between (MqClient.opened pid true) memory pid (.finished (p.directly h R).1)
          (p.directly h R).2)) ↔ ResponsesFit h R p := by
  have hr : Function.update (fun _ => []) Queue.responses left .responses = left ++ [] :=
    (Function.update_self _ _ _).trans (List.append_nil left).symm
  have hstart : Waits pid memory R p _ _ := .intro hl .looking .opening rfl hr
  rw [completes_iff_of_phase hstart (fun _ _ _ => waits_step) (fun _ _ => waits_go),
    completes_map_iff step_launched_iff launched_injective]
  exact session_completes_iff h memory pid R p hq

/-- The announcement of another receiver was left, and a response of a receiver with the same
process id. -/
theorem lookAround_behind_leftovers :
    Completes (Step (silent Unit) 1 fun _ => 0)
      ⟨.waiting ((MqClient.opened 1 false).checkForReady fun _ => 0) lookAround,
        .starting (MqCommunication.start { pid := 1, mCurrentReq := idleReceiver.mCurrentReq })
          idleReceiver,
        Function.update (fun _ => []) .responses [readyMessage 2, pidToBytes 1 ++ [0]]⟩
      (launched (between (MqClient.opened 1 true) (fun _ => 0) 1
        (.finished (lookAround.directly (silent Unit) idleReceiver).1)
        (lookAround.directly (silent Unit) idleReceiver).2)) := by
  have hl : ∀ message ∈ [readyMessage 2, pidToBytes 1 ++ [0]], Stale 1 message := by decide
  have hq : RequestsFit (silent Unit) idleReceiver lookAround := ⟨by decide, by decide, trivial⟩
  have hr : ResponsesFit (silent Unit) idleReceiver lookAround := ⟨by decide, by decide, trivial⟩
  exact (launch_completes_iff (silent Unit) (fun _ => 0) 1 idleReceiver lookAround _ hl hq).mpr hr

end

end VpTesting.QueueLaunches

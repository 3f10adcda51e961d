import Mathlib.Algebra.Order.BigOperators.Group.Finset
import VpTesting.RequestRouting

namespace VpTesting.RequestDeadlock

open VpTesting.Types VpTesting.HandlerCalls VpTesting.Processes VpTesting.MqTestingCommunication
  VpTesting.MqTestingClient VpTesting.MqProcesses VpTesting.ReceiverStages
  VpTesting.ClientStages VpTesting.MqStages VpTesting.RequestRouting

variable {ι κ σ : Type}

/-- The queue is full, and every receiver waits to put back a message for another one. -/
def Wedged (pid : ι → Pid) (t : System ι κ σ) : Prop :=
  (t.queues .requests).length = mqMaxMsg ∧
    ∀ i, ∃ buffer, held (t.receivers i).program = [buffer] ∧ ¬Addressed (pid i) buffer

/-- In the step a client puts a request in the queue. -/
def Submits (t t' : System ι κ σ) : Prop :=
  ∃ k, (t'.clients k).data.sent ≠ (t.clients k).data.sent

section

variable [Fintype ι]

/-- The requests in the queue and those that have yet to be put back there. -/
def outstanding (t : System ι κ σ) : Nat :=
  (t.queues .requests).length + ∑ i, (held (t.receivers i).program).length

/-- With the request put in the queue in this step, the places in the queue and those in the
receivers are not all taken. -/
def LeavesRoom (t t' : System ι κ σ) : Prop :=
  Submits t t' → outstanding t + 1 < mqMaxMsg + Fintype.card ι

end

theorem length_held_le (stage : ReceiverStage) : stage.held.length ≤ 1 := by
  cases stage with
  | announcing | polling | responding => exact Nat.zero_le 1
  | holding => exact Nat.le_refl 1

/-- The queue is within its capacity, and what a receiver holds is for another one. -/
structure Sound (pid : ι → Pid) (s : Staged ι κ σ) : Prop where
  capped : (s.queues .requests).length ≤ mqMaxMsg
  foreign : ∀ i, ∀ buffer ∈ (s.receivers i).stage.held, ¬Addressed (pid i) buffer

section

variable {h : Handlers σ} {mayFail : Prop} {pid : Pid} {R R' : Receiver σ} {q q' : Queues}

theorem capped_receiverMove (hm : ReceiverMove h mayFail pid R q R' q')
    (hq : (q .requests).length ≤ mqMaxMsg) : (q' .requests).length ≤ mqMaxMsg := by
  cases hm with
  | announce | respond =>
    rw [Function.update_of_ne (by decide)]
    exact hq
  | interrupted | discard | suppress => exact hq
  | drop hcons | pass hcons | accept g hcons =>
    rw [hcons] at hq
    rw [Function.update_self]
    exact Nat.le_of_succ_le hq
  | putBack hl hroom =>
    rw [Function.update_self, List.length_append]
    exact hroom

theorem foreign_receiverMove (hm : ReceiverMove h mayFail pid R q R' q') :
    ∀ buffer ∈ R'.stage.held, ¬Addressed pid buffer := by
  cases hm with
  | pass hcons hl ha => exact List.forall_mem_singleton.mpr ha
  | announce | interrupted | drop | accept | putBack | discard | respond | suppress =>
    exact List.forall_mem_nil _

theorem load_receiverMove (hm : ReceiverMove h mayFail pid R q R' q') :
    (q' .requests).length + R'.stage.held.length ≤
      (q .requests).length + R.stage.held.length := by
  cases hm with
  | announce | respond =>
    rw [Function.update_of_ne (by decide)]
    exact Nat.le_refl _
  | interrupted | suppress => exact Nat.le_refl _
  | discard => exact Nat.le_add_right _ _
  | drop hcons | accept g hcons =>
    rw [hcons, Function.update_self]
    exact Nat.le_succ _
  | pass hcons =>
    rw [hcons, Function.update_self]
    exact Nat.le_refl _
  | putBack =>
    rw [Function.update_self, List.length_append]
    exact Nat.le_refl _

end

section

variable {mayFail : Prop} {receiverId : Pid} {C C' : Client} {q q' : Queues}

/-- A client leaves the request queue as it is, or puts one request there and records it. -/
theorem requests_clientMove (hm : ClientMove mayFail receiverId C q C' q') :
    (C'.data.sent = C.data.sent ∧ q' .requests = q .requests) ∨
      (C'.data.sent ≠ C.data.sent ∧ (q .requests).length < mqMaxMsg ∧
        (q' .requests).length = (q .requests).length + 1) := by
  cases hm with
  | skip | look | checkInterrupted | checkLose | awaitInterrupted | awaitLose =>
    exact Or.inl ⟨rfl, rfl⟩
  | checkPass | checkTake | awaitShort | awaitPass | awaitTake =>
    exact Or.inl ⟨rfl, Function.update_of_ne (by decide) _ _⟩
  | @submit d q req res memory hroom =>
    refine Or.inr ⟨?_, hroom, ?_⟩
    · exact fun he => absurd (List.append_right_eq_self.mp he) (List.cons_ne_nil _ _)
    · rw [Function.update_self, List.length_append]
      rfl

end

section

variable [Fintype ι] {pid : ι → Pid} {receiverId : κ → Pid} {s s' : Staged ι κ σ}

def load (s : Staged ι κ σ) : Nat :=
  (s.queues .requests).length + ∑ i, (s.receivers i).stage.held.length

theorem outstanding_toSystem : outstanding (s.toSystem pid receiverId) = load s := by
  refine congrArg _ (Finset.sum_congr rfl fun i _ => congrArg List.length ?_)
  exact held_program (pid i) (s.receivers i).stage

/-- No more fits into the queue and the receivers than there is when all wait. -/
theorem wedged_iff (hs : Sound pid s) :
    Wedged pid (s.toSystem pid receiverId) ↔ mqMaxMsg + Fintype.card ι ≤ load s := by
  have hle : ∑ i, (s.receivers i).stage.held.length ≤ ∑ _ : ι, 1 :=
    Finset.sum_le_sum fun i _ => length_held_le _
  have hcard : ∑ _ : ι, 1 = Fintype.card ι := by simp
  constructor
  · rintro ⟨hfull, hheld⟩
    have hone : ∑ i, (s.receivers i).stage.held.length = ∑ _ : ι, 1 := by
      refine Finset.sum_congr rfl fun i _ => ?_
      obtain ⟨buffer, hb, -⟩ := hheld i
      rw [← held_program (pid i)]
      exact congrArg List.length hb
    rw [load, hone, hcard]
    exact Nat.add_le_add_right (Nat.le_of_eq hfull.symm) _
  · intro hload
    have hcapped := hs.capped
    rw [load] at hload
    have hfull : (s.queues .requests).length = mqMaxMsg := by omega
    have hone : ∑ i, (s.receivers i).stage.held.length = ∑ _ : ι, 1 := by omega
    refine ⟨hfull, fun i => ?_⟩
    have hi := (Finset.sum_eq_sum_iff_of_le fun i _ => length_held_le _).mp hone i
      (Finset.mem_univ i)
    obtain ⟨buffer, hb⟩ := List.length_eq_one_iff.mp hi
    exact ⟨buffer, (held_program (pid i) _).trans hb,
      hs.foreign i buffer (hb ▸ List.mem_singleton_self buffer)⟩

variable [DecidableEq ι] [DecidableEq κ] {h : ι → Handlers σ} {mayFail : Prop}

omit [Fintype ι] in
theorem sound_of_move (hm : Move h mayFail pid receiverId s s') (hs : Sound pid s) :
    Sound pid s' := by
  cases hm with
  | @receiver i R q hm =>
    constructor
    · exact capped_receiverMove hm hs.capped
    · exact (Function.forall_update_iff s.receivers
        fun j R => ∀ buffer ∈ R.stage.held, ¬Addressed (pid j) buffer).mpr
          ⟨foreign_receiverMove hm, fun j _ => hs.foreign j⟩
  | client k hm =>
    refine ⟨?_, hs.foreign⟩
    obtain ⟨-, hq⟩ | ⟨-, hroom, hq⟩ := requests_clientMove hm
    · exact (congrArg List.length hq).trans_le hs.capped
    · exact hq.trans_le hroom

/-- What is outstanding grows by one when a client puts a request in the queue, and only then. -/
theorem load_of_move (hm : Move h mayFail pid receiverId s s') :
    (Submits (s.toSystem pid receiverId) (s'.toSystem pid receiverId) ∧ load s' = load s + 1) ∨
      (¬Submits (s.toSystem pid receiverId) (s'.toSystem pid receiverId) ∧
        load s' ≤ load s) := by
  cases hm with
  | @receiver i R q hm =>
    refine Or.inr ⟨fun ⟨k, hk⟩ => hk rfl, ?_⟩
    have hle := load_receiverMove hm
    have hsum := sum_update_add (fun _ (R : Receiver σ) => R.stage.held.length) s.receivers i R
    simp only [load]
    omega
  | @client k C q hm =>
    obtain ⟨hsent, hq⟩ | ⟨hsent, -, hq⟩ := requests_clientMove hm
    · refine Or.inr ⟨?_, Nat.le_of_eq (congrArg (fun xs => List.length xs + _) hq)⟩
      rintro ⟨j, hj⟩
      by_cases hjk : j = k
      · subst hjk
        refine hj (Eq.trans ?_ hsent)
        simp [Staged.toSystem, Client.toProcess]
      · refine hj ?_
        simp [Staged.toSystem, Client.toProcess, Function.update_of_ne hjk]
    · refine Or.inl ⟨⟨k, ?_⟩, ?_⟩
      · simpa [Staged.toSystem, Client.toProcess] using hsent
      · simp only [load, hq]
        omega

/-- A state with room left in the queue or in the receivers. -/
def Roomy (pid : ι → Pid) (receiverId : κ → Pid) (t : System ι κ σ) : Prop :=
  ∃ s, t = s.toSystem pid receiverId ∧ Sound pid s ∧ load s < mqMaxMsg + Fintype.card ι

omit [DecidableEq ι] [DecidableEq κ] in
theorem not_wedged_of_roomy {t : System ι κ σ} (ht : Roomy pid receiverId t) :
    ¬Wedged pid t := by
  obtain ⟨s, rfl, hs, hload⟩ := ht
  rw [wedged_iff hs]
  exact Nat.not_le.mpr hload

theorem roomy_of_leavesRoom {t t' : System ι κ σ} (ht : Step h mayFail t t')
    (hroom : LeavesRoom t t') (hs : Roomy pid receiverId t) : Roomy pid receiverId t' := by
  obtain ⟨s, rfl, hs, hload⟩ := hs
  obtain ⟨s', rfl, hm⟩ := move_of_step ht
  refine ⟨s', rfl, sound_of_move hm hs, ?_⟩
  obtain ⟨hput, hl⟩ | ⟨-, hl⟩ := load_of_move hm
  · have hlt := hroom hput
    rw [outstanding_toSystem] at hlt
    exact hl.trans_lt hlt
  · exact hl.trans_lt hload

/-- The request for which there is no room left wedges the queue at once. -/
theorem wedged_of_not_leavesRoom {t t' : System ι κ σ} (ht : Step h mayFail t t')
    (hroom : ¬LeavesRoom t t') (hs : Roomy pid receiverId t) : Wedged pid t' := by
  obtain ⟨s, rfl, hs, -⟩ := hs
  obtain ⟨s', rfl, hm⟩ := move_of_step ht
  obtain ⟨hput, hfull⟩ := Classical.not_imp.mp hroom
  rw [wedged_iff (sound_of_move hm hs)]
  obtain ⟨-, hl⟩ | ⟨hnot, -⟩ := load_of_move hm
  · rw [outstanding_toSystem] at hfull
    exact hl ▸ Nat.not_lt.mp hfull
  · exact absurd hput hnot

/-- A run never wedges if and only if no request is put in the queue when the request is all
that the queue and the receivers can still take. -/
theorem never_wedged_iff (h : ι → Handlers σ) (mayFail : Prop) {t : System ι κ σ}
    {run : List (System ι κ σ)} (ht : Fresh pid receiverId t)
    (hr : List.IsChain (Step h mayFail) (t :: run)) :
    (∀ t' ∈ t :: run, ¬Wedged pid t') ↔ List.IsChain LeavesRoom (t :: run) := by
  have hroomy : Roomy pid receiverId t := by
    obtain ⟨s, rfl, hs⟩ := initial_of_fresh ht
    have hR (i : ι) : (s.receivers i).stage.held = [] := by
      obtain ⟨v, hv⟩ := hs.receivers i
      rw [hv]
      rfl
    have hload : load s = 0 := by simp [load, hs.queues, hR]
    have hpos : 0 < mqMaxMsg + Fintype.card ι := Nat.add_pos_left (by decide) _
    refine ⟨s, rfl, ⟨?_, ?_⟩, hload.trans_lt hpos⟩
    · simp [hs.queues]
    · simp [hR]
  refine forall_iff_isChain (fun _ => not_wedged_of_roomy) ?_ ?_ hroomy hr
  · exact fun _ _ => roomy_of_leavesRoom
  · exact fun _ _ hstep hroom hs => not_not_intro (wedged_of_not_leavesRoom hstep hroom hs)

end

/-- The first receiver takes the request for the second one and puts it back. -/
theorem never_wedged_passed :
    let run := [(listening 0).toSystem pids pids, (submitted 0 1).toSystem pids pids,
      (passing 0 1).toSystem pids pids, (passed 0 1).toSystem pids pids]
    (∀ t ∈ submitting.toSystem pids pids :: run, ¬Wedged pids t) ↔
      List.IsChain LeavesRoom (submitting.toSystem pids pids :: run) :=
  never_wedged_iff (fun _ => silent Unit) False fresh_submitting
    (.cons_cons (step_of_move move_listening) (.cons_cons (step_of_move move_submitted)
      (.cons_cons (step_of_move move_passing) (.cons_cons (step_of_move move_passed)
        (.singleton _)))))

section

variable [DecidableEq ι] [DecidableEq κ] {h : ι → Handlers σ} {pid : ι → Pid}
  {receiverId : κ → Pid} {s : Staged ι κ σ}

/-- A client whose receives are interrupted can go on sending until the queue is full. -/
theorem moves_flood {k : κ} {req : FittingRequest} {n : Nat}
    (hC : (s.clients k).stage = .awaiting req.request {})
    (hroom : (s.queues .requests).length + n ≤ mqMaxMsg) :
    ∃ s', Relation.ReflTransGen (Move h True pid receiverId) s s' ∧ s'.receivers = s.receivers ∧
      (s'.queues .requests).length = (s.queues .requests).length + n := by
  induction n generalizing s with
  | zero => exact ⟨s, .refl, rfl, rfl⟩
  | succ n ih =>
    have hd : s.clients k = ⟨(s.clients k).data, .awaiting req.request {}⟩ := hC ▸ rfl
    have hlt : (s.queues .requests).length < mqMaxMsg := by omega
    have hi : ClientStage.Idle true (.submitting req {} fun _ => 0) := .request rfl req {} _
    have h₁ : Relation.ReflTransGen (Move h True pid receiverId) s _ :=
      .single (move_client hd (.awaitInterrupted trivial hi))
    have h₂ := h₁.tail (move_client (Function.update_self ..) (.submit hlt))
    obtain ⟨s₂, hs₂, hR, hC₂, hq⟩ : ∃ s₂, Relation.ReflTransGen (Move h True pid receiverId) s s₂ ∧
        s₂.receivers = s.receivers ∧ (s₂.clients k).stage = .awaiting req.request {} ∧
        (s₂.queues .requests).length = (s.queues .requests).length + 1 :=
      ⟨_, h₂, rfl, by simp, by simp⟩
    obtain ⟨s', hs', hR', hq'⟩ := ih hC₂ (by omega)
    exact ⟨s', hs₂.trans hs', hR'.trans hR, by omega⟩

end

/-- Each receiver takes the request for the other one, and the first client, interrupted each
time it waits for an answer, fills the queue before they can put the requests back. -/
theorem exists_wedged :
    Fresh pids pids (pairs.toSystem pids pids) ∧ Function.Injective pids ∧
      ∃ t, Reachable (fun _ => silent Unit) True (pairs.toSystem pids pids) t ∧ Wedged pids t := by
  have hi : ClientStage.Idle true (.submitting killRequest {} fun _ => 0) :=
    .request rfl killRequest {} _
  have h₀ : Relation.ReflTransGen (Move (fun _ => silent Unit) True pids pids) pairs _ :=
    moves_announcement (i := 0) (k := 0) rfl rfl rfl rfl hi
  have h₁ := h₀.trans (moves_announcement (i := 1) (k := 1) rfl rfl rfl rfl hi)
  have h₂ := h₁.tail (move_client (k := 1) rfl (.submit (by decide)))
  have h₃ := h₂.tail (move_client (k := 0) rfl (.submit (by decide)))
  have h₄ := h₃.tail (move_receiver (i := 0) rfl (.pass rfl (by decide) (by decide)))
  have h₅ := h₄.tail (move_receiver (i := 1) rfl (.pass rfl (by decide) (by decide)))
  obtain ⟨s, hs, hR, hC, hq⟩ : ∃ s : Staged (Fin 2) (Fin 2) Unit,
      Relation.ReflTransGen (Move (fun _ => silent Unit) True pids pids) pairs s ∧
        (∀ i, ∃ buffer, (s.receivers i).stage.held = [buffer] ∧ ¬Addressed (pids i) buffer) ∧
        (s.clients 0).stage = .awaiting killRequest.request {} ∧ s.queues .requests = [] :=
    ⟨_, h₅, Fin.forall_fin_two.mpr ⟨⟨_, rfl, by decide⟩, ⟨_, rfl, by decide⟩⟩, rfl, rfl⟩
  have hroom : (s.queues .requests).length + mqMaxMsg ≤ mqMaxMsg := by
    rw [hq]
    decide
  obtain ⟨s', hs', hR', hq'⟩ := moves_flood hC hroom
  refine ⟨fresh_pairs, by decide, _,
    reachable_of_moves (hs.trans hs'), ?_, fun i => ?_⟩
  · rw [hq, List.length_nil, Nat.zero_add] at hq'
    exact hq'
  · obtain ⟨buffer, hb, ha⟩ := hR i
    refine ⟨buffer, (held_program (pids i) _).trans ?_, ha⟩
    rw [hR', hb]

end VpTesting.RequestDeadlock

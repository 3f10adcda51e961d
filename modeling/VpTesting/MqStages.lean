import VpTesting.ClientStages
import VpTesting.ReceiverStages

namespace VpTesting.MqStages

open VpTesting.Types VpTesting.HandlerCalls VpTesting.MqTestingCommunication VpTesting.MqProcesses
  VpTesting.ReceiverStages VpTesting.ClientStages

variable {ι κ σ : Type}

/-- A system whose processes are at known stages. -/
structure Staged (ι κ σ : Type) where
  queues : Queues
  receivers : ι → Receiver σ
  clients : κ → Client

def Staged.toSystem (pid : ι → Pid) (receiverId : κ → Pid) (s : Staged ι κ σ) : System ι κ σ where
  queues := s.queues
  receivers i := (s.receivers i).toProcess (pid i)
  clients k := (s.clients k).toProcess (receiverId k)

/-- The stages of fresh processes. -/
structure Initial (s : Staged ι κ σ) : Prop where
  queues : ∀ q, s.queues q = []
  receivers : ∀ i, ∃ v : σ, s.receivers i = ⟨{ state := v }, .announcing⟩
  clients : ∀ k, ∃ started stage, ClientStage.Idle started stage ∧ s.clients k = ⟨{}, stage⟩

variable {pid : ι → Pid} {receiverId : κ → Pid} {t t' : System ι κ σ}

theorem initial_of_fresh (ht : Fresh pid receiverId t) :
    ∃ s : Staged ι κ σ, t = s.toSystem pid receiverId ∧ Initial s := by
  obtain ⟨hq, hr, hc⟩ := ht
  choose v hv using hr
  choose started hstarted using hc
  choose stage hstage using fun k => chooses_stage (hstarted k)
  refine ⟨⟨t.queues, fun i => ⟨{ state := v i }, .announcing⟩, fun k => ⟨{}, stage k⟩⟩, ?_, hq,
    fun i => ⟨v i, rfl⟩, fun k => ⟨started k, stage k, (hstage k).1, rfl⟩⟩
  obtain ⟨queues, receivers, clients⟩ := t
  rw [Staged.toSystem]
  congr 1
  · funext i
    exact hv i
  · funext k
    exact (hstage k).2

/-- Fresh processes, with the clients at given stages. -/
def starting (v : ι → σ) (stage : κ → ClientStage) : Staged ι κ σ where
  queues _ := []
  receivers i := ⟨{ state := v i }, .announcing⟩
  clients k := ⟨{}, stage k⟩

theorem fresh_starting {v : ι → σ} {stage : κ → ClientStage}
    (hs : ∀ k, ∃ started, ClientStage.Idle started (stage k)) :
    Fresh pid receiverId ((starting v stage).toSystem pid receiverId) := by
  refine ⟨fun _ => rfl, fun i => ⟨v i, rfl⟩, fun k => ?_⟩
  obtain ⟨started, hi⟩ := hs k
  exact ⟨started, chooses_of_idle hi⟩

def pids (i : Fin 2) : Pid := if i = 0 then 1 else 2

/-- Two receivers, and for each a client that looks for the announcement. -/
def pairs : Staged (Fin 2) (Fin 2) Unit :=
  starting (fun _ => ()) fun _ => .checking false fun _ => 0

/-- The first receiver of two has announced itself. -/
def announced : Staged (Fin 2) (Fin 2) Unit :=
  { pairs with
    queues := Function.update pairs.queues .responses [readyMessage 1]
    receivers := Function.update pairs.receivers 0
      ⟨{ state := (), put := [readyMessage 1] }, .polling {}⟩ }

theorem initial_pairs : Initial pairs :=
  ⟨fun _ => rfl, fun _ => ⟨(), rfl⟩, fun _ => ⟨false, _, .check _, rfl⟩⟩

theorem fresh_pairs : Fresh pids pids (pairs.toSystem pids pids) :=
  fresh_starting fun _ => ⟨false, .check _⟩

section

variable {s : Staged ι κ σ} {q : Queues}

theorem toSystem_receiver [DecidableEq ι] (i : ι) (R : Receiver σ) :
    Staged.toSystem pid receiverId
        { s with queues := q, receivers := Function.update s.receivers i R } =
      { s.toSystem pid receiverId with
        queues := q
        receivers := Function.update (s.toSystem pid receiverId).receivers i
          (R.toProcess (pid i)) } := by
  rw [Staged.toSystem, Staged.toSystem]
  congr 1
  funext j
  exact Function.apply_update (fun j (R : Receiver σ) => R.toProcess (pid j)) s.receivers i R j

theorem toSystem_client [DecidableEq κ] (k : κ) (C : Client) :
    Staged.toSystem pid receiverId
        { s with queues := q, clients := Function.update s.clients k C } =
      { s.toSystem pid receiverId with
        queues := q
        clients := Function.update (s.toSystem pid receiverId).clients k
          (C.toProcess (receiverId k)) } := by
  rw [Staged.toSystem, Staged.toSystem]
  congr 1
  funext j
  exact Function.apply_update (fun j (C : Client) => C.toProcess (receiverId j)) s.clients k C j

end

variable [DecidableEq ι] [DecidableEq κ]

inductive Move (h : ι → Handlers σ) (mayFail : Prop) (pid : ι → Pid) (receiverId : κ → Pid)
    (s : Staged ι κ σ) : Staged ι κ σ → Prop
  | receiver (i : ι) {R : Receiver σ} {q : Queues}
    (hm : ReceiverMove (h i) mayFail (pid i) (s.receivers i) s.queues R q) :
    Move h mayFail pid receiverId s
      { s with queues := q, receivers := Function.update s.receivers i R }
  | client (k : κ) {C : Client} {q : Queues}
    (hm : ClientMove mayFail (receiverId k) (s.clients k) s.queues C q) :
    Move h mayFail pid receiverId s
      { s with queues := q, clients := Function.update s.clients k C }

section

variable {h : ι → Handlers σ} {mayFail : Prop} {s s' : Staged ι κ σ}

theorem move_of_step (ht : Step h mayFail (s.toSystem pid receiverId) t) :
    ∃ s', t = s'.toSystem pid receiverId ∧ Move h mayFail pid receiverId s s' := by
  cases ht with
  | receiver i hP =>
    obtain ⟨R, rfl, hm⟩ := receiver_step hP
    exact ⟨_, (toSystem_receiver i R).symm, .receiver i hm⟩
  | client k hP =>
    obtain ⟨C, rfl, hm⟩ := client_step hP
    exact ⟨_, (toSystem_client k C).symm, .client k hm⟩

theorem step_of_move (hm : Move h mayFail pid receiverId s s') :
    Step h mayFail (s.toSystem pid receiverId) (s'.toSystem pid receiverId) := by
  cases hm with
  | receiver i hm =>
    rw [toSystem_receiver]
    exact .receiver i (step_of_receiverMove hm)
  | client k hm =>
    rw [toSystem_client]
    exact .client k (step_of_clientMove hm)

theorem reachable_of_moves (hm : Relation.ReflTransGen (Move h mayFail pid receiverId) s s') :
    Reachable h mayFail (s.toSystem pid receiverId) (s'.toSystem pid receiverId) :=
  hm.lift _ fun _ _ => step_of_move

theorem move_receiver {i : ι} {R R' : Receiver σ} {q : Queues} (hR : s.receivers i = R)
    (hm : ReceiverMove (h i) mayFail (pid i) R s.queues R' q) :
    Move h mayFail pid receiverId s
      { s with queues := q, receivers := Function.update s.receivers i R' } := by
  subst hR
  exact .receiver i hm

theorem move_client {k : κ} {C C' : Client} {q : Queues} (hC : s.clients k = C)
    (hm : ClientMove mayFail (receiverId k) C s.queues C' q) :
    Move h mayFail pid receiverId s
      { s with queues := q, clients := Function.update s.clients k C' } := by
  subst hC
  exact .client k hm

/-- A receiver announces itself, and its client takes the announcement. -/
theorem moves_announcement {i : ι} {k : κ} {d : ReceiverData σ} {e : ClientData} {started : Bool}
    {memory : Nat → UInt8} {stage : ClientStage} (hR : s.receivers i = ⟨d, .announcing⟩)
    (hC : s.clients k = ⟨e, .checking started memory⟩) (hq : s.queues .responses = [])
    (hp : receiverId k = pid i) (hi : ClientStage.Idle true stage) :
    Relation.ReflTransGen (Move h mayFail pid receiverId) s
      { queues := s.queues
        receivers := Function.update s.receivers i
          ⟨{ d with put := d.put ++ [readyMessage (pid i)] }, .polling {}⟩
        clients := Function.update s.clients k
          ⟨{ e with taken := e.taken ++ [readyMessage (pid i)] }, stage⟩ } := by
  let R : Receiver σ := ⟨{ d with put := d.put ++ [readyMessage (pid i)] }, .polling {}⟩
  let C : Client := ⟨{ e with taken := e.taken ++ [readyMessage (pid i)] }, stage⟩
  let s₁ : Staged ι κ σ :=
    { s with
      queues := Function.update s.queues .responses
        (s.queues .responses ++ [readyMessage (pid i)])
      receivers := Function.update s.receivers i R }
  let s₂ : Staged ι κ σ :=
    { s₁ with clients := Function.update s.clients k ⟨e, .looking started memory⟩ }
  have h₁ : Move h mayFail pid receiverId s s₁ :=
    move_receiver hR (.announce (by rw [hq]; decide))
  have h₂ : Move h mayFail pid receiverId s₁ s₂ := by
    have hC₁ : s₁.clients k = ⟨e, .checking started memory⟩ := hC
    exact move_client hC₁ (.look (by simp [s₁]))
  have h₃ : Move h mayFail pid receiverId s₂ ⟨s.queues, s₁.receivers,
      Function.update s.clients k C⟩ := by
    have hC₂ : s₂.clients k = ⟨e, .looking started memory⟩ := Function.update_self ..
    have hq₂ : s₂.queues .responses = [readyMessage (receiverId k)] := by simp [s₂, s₁, hq, hp]
    have hqueues : Function.update s₂.queues .responses [] = s.queues := by
      funext x
      cases x with
      | requests => simp [s₂, s₁]
      | responses => simp [hq]
    have hm : ClientMove mayFail (receiverId k) ⟨e, .looking started memory⟩ s₂.queues C
        s.queues := by
      rw [← hqueues]
      simp only [C, ← hp]
      exact clientMove_readyMessage hq₂ hi
    have h₃ : Move h mayFail pid receiverId s₂ _ := move_client hC₂ hm
    rwa [Function.update_idem] at h₃
  exact ((Relation.ReflTransGen.single h₁).tail h₂).tail h₃

/-- The first of two clients is started and sends KILL, and its receiver answers. -/
theorem exists_killAnswered : ∃ s : Staged (Fin 2) (Fin 2) Unit,
    Relation.ReflTransGen (Move (fun _ => silent Unit) False pids pids) pairs s ∧
      (∃ prior, (s.receivers 0).stage = .polling prior) ∧ (s.receivers 0).data.handled ≠ [] ∧
      (s.clients 0).stage = .awaiting killRequest.request {} ∧
      s.queues .responses = [responseMessage 1 {}] := by
  have hi : ClientStage.Idle true (.submitting killRequest {} fun _ => 0) :=
    .request rfl killRequest {} _
  have h₀ : Relation.ReflTransGen (Move (fun _ => silent Unit) False pids pids) pairs _ :=
    moves_announcement (i := 0) (k := 0) rfl rfl rfl rfl hi
  have h₁ := h₀.tail (move_client (k := 0) rfl (.submit (by decide)))
  have h₂ := h₁.tail (move_receiver (i := 0) rfl
    (.accept Indeterminate.zero rfl (by decide) (by decide)))
  have h₃ := h₂.tail (move_receiver (i := 0) rfl (.respond (by decide) (by decide)))
  exact ⟨_, h₃, ⟨_, rfl⟩, List.cons_ne_nil _ _, rfl, rfl⟩

/-- What moves preserve holds in every state that is reached from a staged one. -/
theorem reachable_invariant {I : Staged ι κ σ → Prop}
    (hr : Reachable h mayFail (s.toSystem pid receiverId) t) (h0 : I s)
    (hstep : ∀ s s', Move h mayFail pid receiverId s s' → I s → I s') :
    ∃ s', t = s'.toSystem pid receiverId ∧ I s' := by
  induction hr with
  | refl => exact ⟨s, rfl, h0⟩
  | tail hr ht ih =>
    obtain ⟨s₁, rfl, hs₁⟩ := ih
    obtain ⟨s', rfl, hm⟩ := move_of_step ht
    exact ⟨s', rfl, hstep s₁ s' hm hs₁⟩

/-- What moves preserve holds in every reachable state of the system. -/
theorem reachable_induction {I : Staged ι κ σ → Prop} (ht : Fresh pid receiverId t)
    (hr : Reachable h mayFail t t') (h0 : ∀ s, Initial s → I s)
    (hstep : ∀ s s', Move h mayFail pid receiverId s s' → I s → I s') :
    ∃ s, t' = s.toSystem pid receiverId ∧ I s := by
  obtain ⟨s, rfl, hs⟩ := initial_of_fresh ht
  exact reachable_invariant hr (h0 s hs) hstep

end

end VpTesting.MqStages

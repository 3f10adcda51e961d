import Mathlib.Data.List.ReduceOption
import VpTesting.EventDelivery
import VpTesting.HandlerSimulation
import VpTesting.Ownership
import VpTesting.RequestBuffers

namespace VpTesting.ReceiverHeap

open VpTesting.Types VpTesting.HandlerCalls VpTesting.HandleRequest VpTesting.HandlerSimulation
  VpTesting.TestingReceiver VpTesting.EventDelivery VpTesting.BufferLedger VpTesting.Ownership
  VpTesting.PipeTestingCommunication VpTesting.MqTestingCommunication VpTesting.RequestBuffers
  VpTesting.ProgramReplies

variable {τ C : Type}

/-- The handlers as they are declared: that of CONTINUE returns and removes the first event, and
the others leave the queue as it is. -/
structure QueueContract (h : Handlers (Receiver × τ)) : Prop where
  taken : ContinueContract h
  kept : ∀ c v, branch c ≠ .«continue» → (h c v).state.1.mEventQueue = v.1.mEventQueue

/-- The buffers of the receiver process, with those that the events of the queue point to. -/
structure Heap where
  ledger : Ledger := {}
  events : List (Option Nat) := []

namespace Heap

/-- A notification allocates the additional data of its event. -/
def notified (H : Heap) (e : Event) : Heap :=
  let buffer : Holder := { ledger := H.ledger }
  let buffer := if e.additionData.isSome then buffer.allocate else buffer
  { ledger := buffer.ledger, events := H.events ++ [buffer.data] }

/-- A request is handled and its response sent: CONTINUE takes an event, the data of the response
are allocated, those of the event are released, and then those of the response. -/
def served (H : Heap) (continued : Bool) (res : Response) : Heap :=
  let taken := if continued then H.events.head?.join else none
  let events := if continued then H.events.tail else H.events
  let answer : Holder := { ledger := H.ledger }
  let answer := if res.data.isSome then answer.allocate else answer
  let event : Holder := { data := taken, ledger := answer.ledger }
  let answer := { answer with ledger := event.release.ledger }
  { ledger := answer.release.ledger, events }

/-- The buffers of the events. -/
def buffers (H : Heap) : List Nat := H.events.reduceOption

end Heap

/-- A kind of communication with its calls of `receive_request`: the result, and what the call
makes of the object and of the buffer of its request. -/
structure Communication (C : Type) where
  mCurrentReq : C → Request
  Receives : C × Holder → Bool → C × Holder → Prop

def pipes : Communication PipeCommunication where
  mCurrentReq c := c.mCurrentReq
  Receives s result t := ∃ call pipe, pipeReceive s.1 s.2 call = some (⟨result, t.1, pipe⟩, t.2)

def queues : Communication MqCommunication where
  mCurrentReq c := c.mCurrentReq
  Receives s result t := ∃ replies, replay replies (mqReceive s.1 s.2) = some ((result, t.1), t.2)

/-- A receiver with its communication, the pointer to the data of the current request, and the
buffers of former requests that no pointer points to any more. -/
structure State (τ C : Type) where
  receiver : Receiver × τ
  communication : C
  request : Option Nat := none
  heap : Heap := {}
  lost : List Nat := []

namespace State

variable (s : State τ C)

def holder : Holder := { data := s.request, ledger := s.heap.ledger }

/-- After a call of `receive_request`. -/
def received (communication : C) (h : Holder) : State τ C :=
  { s with
    communication
    request := h.data
    heap := { s.heap with ledger := h.ledger }
    lost := s.request.toList.filter (fun b => h.ledger.Live b ∧ h.data ≠ some b) ++ s.lost }

/-- The request is a CONTINUE that is not malformed. -/
def Continues (req : Request) : Prop :=
  Command.ofByte req.requestCommand = some .«continue» ∧ req.dataLength = 0

instance : DecidablePred Continues := fun _ => inferInstanceAs (Decidable (_ ∧ _))

def handled (h : Handlers (Receiver × τ)) (g : Indeterminate) (req : Request) : State τ C :=
  let r := ((handleRequest h g req).run { state := s.receiver }).2
  { s with receiver := r.state, heap := s.heap.served (Continues req) r.res }

end State

/-- What happens in the process: notifications, anything else the platform does, and the calls of
the receiver loop. CONTINUE is answered once there is an event. -/
inductive Step (com : Communication C) (h : Handlers (Receiver × τ)) :
    State τ C → State τ C → Prop
  | notify {s} (n : Notification) :
    Step com h s { s with
      receiver := (n.notify s.receiver.1, s.receiver.2)
      heap := s.heap.notified n.event }
  | simulate {s} (own : τ) : Step com h s { s with receiver := (s.receiver.1, own) }
  | refuse {s} (c : C) (b : Holder) (hr : com.Receives (s.communication, s.holder) false (c, b)) :
    Step com h s (s.received c b)
  | serve {s} (g : Indeterminate) (c : C) (b : Holder)
    (hr : com.Receives (s.communication, s.holder) true (c, b))
    (hq : State.Continues (com.mCurrentReq c) → s.receiver.1.mEventQueue ≠ []) :
    Step com h s ((s.received c b).handled h g (com.mCurrentReq c))

/-- Some steps after the receiver and its communication were built. -/
inductive Reachable (com : Communication C) (h : Handlers (Receiver × τ)) : State τ C → Prop
  | start (receiver : Receiver) (own : τ) (c : C) (hq : receiver.mEventQueue = [])
    (hc : com.mCurrentReq c = {}) :
    Reachable com h { receiver := (receiver, own), communication := c }
  | step {s t} (hs : Reachable com h s) (ht : Step com h s t) : Reachable com h t

/-- The buffers that are not released are those of the current request, of the queued events and
of the requests that were lost, and every pointer is null exactly if there are no data. -/
structure Invariant (com : Communication C) (s : State τ C) : Prop where
  owned : Owns s.heap.ledger (s.request.toList ++ (s.heap.buffers ++ s.lost))
  events : s.heap.events.map Option.isSome =
    s.receiver.1.mEventQueue.map fun e => e.additionData.isSome
  request : Points (com.mCurrentReq s.communication) s.holder

section

variable {h : Holder} {h' : Holder} {others : List Nat}

theorem taken_ownsWith (ht : Taken h h') (hd : h.data = none) (ho : OwnsWith h others) :
    OwnsWith h' others := by
  cases ht with
  | without => exact ho
  | withData => exact ho.allocate hd
  | aborted => exact (ho.allocate hd).release

/-- What a call leaves to the others is what the pointer pointed to and is still there. -/
theorem lost_eq {lost : List Nat} (ho : OwnsWith h others) (ho' : OwnsWith h' (lost ++ others))
    (hl : lost = [] ∨ lost = h.data.toList) :
    h.data.toList.filter (fun b => h'.ledger.Live b ∧ h'.data ≠ some b) = lost := by
  cases hd : h.data with
  | none =>
    rw [hd] at hl
    exact hl.elim Eq.symm Eq.symm
  | some b =>
    rw [hd] at hl
    have hb : b ∉ others := by
      have honce := ho.once
      rw [hd] at honce
      exact (List.nodup_cons.mp honce).1
    obtain rfl | rfl := hl
    · have hn : ¬(h'.ledger.Live b ∧ h'.data ≠ some b) := by
        rintro ⟨hlive, hne⟩
        obtain hmem | hmem := List.mem_append.mp ((ho'.live b).mp hlive)
        · exact hne (Option.mem_toList.mp hmem)
        · exact hb hmem
      simp [hn]
    · have hp : h'.ledger.Live b ∧ h'.data ≠ some b := by
        refine ⟨(ho'.live b).mpr (by simp), fun he => ?_⟩
        have honce := ho'.once
        rw [he] at honce
        exact (List.nodup_cons.mp honce).1 (by simp)
      simp [hp]

end

/-- What a call of `receive_request` does with its buffers. -/
structure Call (com : Communication C) (c : C) (h : Holder) (c' : C) (h' : Holder) : Prop where
  owned : ∀ others, OwnsWith h others → ∃ lost, (lost = [] ∨ lost = h.data.toList) ∧
    OwnsWith h' (lost ++ others)
  points : Points (com.mCurrentReq c) h → Points (com.mCurrentReq c') h'

theorem call_pipes {c c' : PipeCommunication} {b b' : Holder} {result : Bool}
    (hr : pipes.Receives (c, b) result (c', b')) : Call pipes c b c' b' := by
  obtain ⟨call, pipe, hr⟩ := hr
  obtain ⟨-, hc, rfl⟩ | ⟨-, ht, hp⟩ := pipeReceive_cases hr
  · have hc : c' = c := hc
    exact ⟨fun others ho => ⟨[], Or.inl rfl, ho⟩, fun hp => hc ▸ hp⟩
  · refine ⟨fun others ho => ⟨b.data.toList, Or.inr rfl, ?_⟩, fun _ => hp⟩
    exact taken_ownsWith ht Holder.data_release ho.reset.release

/-- Behind a queue nothing is lost. -/
theorem call_queues {c c' : MqCommunication} {b b' : Holder} {result : Bool}
    (hr : queues.Receives (c, b) result (c', b')) :
    Call queues c b c' b' ∧ ∀ others, OwnsWith b others → OwnsWith b' others := by
  obtain ⟨replies, hr⟩ := hr
  have hcall : (∀ others, OwnsWith b others → OwnsWith b' others) ∧
      (Points (queues.mCurrentReq c) b → Points (queues.mCurrentReq c') b') := by
    obtain ⟨hc, rfl⟩ | ⟨ht, hp⟩ := mqReceive_cases hr
    · have hc : queues.mCurrentReq c' = queues.mCurrentReq c := hc
      exact ⟨fun _ ho => ho, fun hp => by rwa [hc]⟩
    · refine ⟨fun others ho => taken_ownsWith ht Holder.data_reset ?_, fun _ => hp⟩
      have hreset := ho.release.reset
      rwa [Holder.data_release] at hreset
  exact ⟨⟨fun others ho => ⟨[], Or.inl rfl, hcall.1 others ho⟩, hcall.2⟩, hcall.1⟩

section

variable {H : Heap} {others : List Nat}

theorem owns_notified (e : Event) (ho : Owns H.ledger (others ++ H.buffers)) :
    Owns (H.notified e).ledger (others ++ (H.notified e).buffers) := by
  cases hd : e.additionData with
  | none =>
    have hb : (H.notified e).buffers = H.buffers := by
      simp [Heap.notified, Heap.buffers, hd, List.reduceOption_append]
    have hl : (H.notified e).ledger = H.ledger := by simp [Heap.notified, hd]
    rwa [hb, hl]
  | some data =>
    have hb : (H.notified e).buffers = H.buffers ++ [H.ledger.created] := by
      simp [Heap.notified, Heap.buffers, hd, List.reduceOption_append, Holder.allocate]
    have hl : (H.notified e).ledger = H.ledger.malloc := by
      simp [Heap.notified, hd, Holder.allocate]
    rw [hb, hl, ← List.append_assoc]
    exact ho.malloc.perm (List.perm_append_singleton _ _).symm

theorem buffers_head_tail (H : Heap) :
    H.buffers = H.events.head?.join.toList ++ H.events.tail.reduceOption := by
  rw [Heap.buffers]
  obtain _ | ⟨_ | b, events⟩ := H.events
  · rfl
  · rfl
  · rfl

/-- The pointer to the data of a response once they were allocated. -/
def allocated (l : Ledger) (res : Response) : Holder :=
  if res.data.isSome then ({ ledger := l } : Holder).allocate else { ledger := l }

theorem ownsWith_allocated {l : Ledger} (res : Response) (ho : Owns l others) :
    OwnsWith (allocated l res) others := by
  have hnone : OwnsWith { ledger := l } others := ho
  rw [allocated]
  split
  · exact hnone.allocate rfl
  · exact hnone

/-- The data of a response are released, and otherwise an event that was taken. -/
theorem owns_served (continued : Bool) (res : Response)
    (ho : Owns H.ledger (H.buffers ++ others)) :
    Owns (H.served continued res).ledger ((H.served continued res).buffers ++ others) := by
  obtain ⟨taken, events, ht, he, hbuffers⟩ : ∃ taken events,
      taken = (if continued then H.events.head?.join else none) ∧
      events = (if continued then H.events.tail else H.events) ∧
      H.buffers = taken.toList ++ events.reduceOption := by
    refine ⟨_, _, rfl, rfl, ?_⟩
    cases continued with
    | false => rfl
    | true => exact buffers_head_tail H
  have hanswer : OwnsWith (allocated H.ledger res)
      (taken.toList ++ (events.reduceOption ++ others)) := by
    rw [hbuffers, List.append_assoc] at ho
    exact ownsWith_allocated res ho
  have hevent : OwnsWith { data := taken, ledger := (allocated H.ledger res).ledger }
      ((allocated H.ledger res).data.toList ++ (events.reduceOption ++ others)) :=
    hanswer.perm (List.perm_append_comm_assoc _ _ _)
  have hreleased := hevent.release
  rw [OwnsWith, Holder.data_release, Option.toList_none, List.nil_append] at hreleased
  have hdone : OwnsWith (Holder.release ⟨(allocated H.ledger res).data, _⟩)
      (events.reduceOption ++ others) := OwnsWith.release hreleased
  rw [OwnsWith, Holder.data_release, Option.toList_none, List.nil_append] at hdone
  rw [Heap.served, Heap.buffers, ← ht, ← he]
  exact hdone

end

section

variable {h : Handlers (Receiver × τ)} {req : Request} {v : Receiver × τ}

/-- A CONTINUE takes the first event, and no other request changes the queue. -/
theorem queue_handled (hq : QueueContract h) (g : Indeterminate)
    (he : State.Continues req → v.1.mEventQueue ≠ []) :
    ((handleRequest h g req).run { state := v }).2.state.1.mEventQueue =
      if State.Continues req then v.1.mEventQueue.tail else v.1.mEventQueue := by
  by_cases hk : Command.ofByte req.requestCommand = some .«continue»
  · by_cases hl : req.dataLength = 0
    · have hc : State.Continues req := ⟨hk, hl⟩
      have hn : req.dataLength.toNat = 0 := by rw [hl, UInt32.toNat_zero]
      cases hv : v.1.mEventQueue with
      | nil => exact absurd hv (he hc)
      | cons e queue =>
        have hfirst : v.1.getAndRemoveFirstEvent =
            some (e, { v.1 with mEventQueue := queue }) := by
          rw [Receiver.getAndRemoveFirstEvent, hv]
        have hstate : (h (.handleContinue { event := g.eventType }) v).state.1.mEventQueue =
            queue := (hq.taken { event := g.eventType } v e _ hfirst).2
        rw [if_pos hc, List.tail_cons]
        simpa [handleRequest, hk, hn] using hstate
    · have hn : req.dataLength.toNat ≠ 0 := fun h0 => hl (UInt32.toNat.inj h0)
      rw [if_neg fun hc => hl hc.2]
      simp [handleRequest, hk, hn]
  · rw [if_neg fun hc => hk hc.1]
    let P (w : Receiver × τ) : Prop := w.1.mEventQueue = v.1.mEventQueue
    have hkept : ∀ c, Command.ofByte req.requestCommand = some (branch c) →
        ∀ w, P w → P (h c w).state := by
      intro c hc w hw
      exact (hq.kept c w fun hb => hk (hb ▸ hc)).trans hw
    exact keeps_handleRequest req hkept g (show P v from rfl)

end

section

variable {com : Communication C} {h : Handlers (Receiver × τ)} {s t : State τ C}

/-- The state behind a call of `receive_request`. -/
theorem invariant_received {c : C} {b : Holder} (hi : Invariant com s)
    (hc : Call com s.communication s.holder c b) : Invariant com (s.received c b) := by
  have howned : OwnsWith s.holder (s.heap.buffers ++ s.lost) := hi.owned
  obtain ⟨lost, hl, ho⟩ := hc.owned _ howned
  have hlost := lost_eq howned ho hl
  refine ⟨?_, hi.events, hc.points hi.request⟩
  have hs : (s.received c b).lost = lost ++ s.lost := congrArg (· ++ s.lost) hlost
  rw [hs]
  exact ho.perm ((List.perm_append_comm_assoc _ _ _).append_left _)

theorem invariant_handled (hq : QueueContract h) (g : Indeterminate) {req : Request}
    (hi : Invariant com s) (he : State.Continues req → s.receiver.1.mEventQueue ≠ []) :
    Invariant com (s.handled h g req) := by
  refine ⟨?_, ?_, hi.request⟩
  · have ho : Owns s.heap.ledger (s.heap.buffers ++ (s.request.toList ++ s.lost)) :=
      hi.owned.perm (List.perm_append_comm_assoc _ _ _)
    exact (owns_served _ _ ho).perm (List.perm_append_comm_assoc _ _ _)
  · have hqueue := queue_handled hq g he
    have hevents := hi.events
    simp only [State.handled, Heap.served]
    rw [hqueue]
    by_cases hc : State.Continues req
    · simp only [hc, decide_true, if_true, List.map_tail, hevents]
    · simp only [hc, decide_false, if_false, Bool.false_eq_true, hevents]

theorem invariant_step (hq : QueueContract h)
    (hcall : ∀ c b result c' b', com.Receives (c, b) result (c', b') → Call com c b c' b')
    (hi : Invariant com s) (ht : Step com h s t) : Invariant com t := by
  cases ht with
  | notify n =>
    refine ⟨?_, ?_, hi.request⟩
    · have ho : Owns s.heap.ledger ((s.request.toList ++ s.lost) ++ s.heap.buffers) :=
        hi.owned.perm (by
          rw [List.append_assoc]
          exact List.perm_append_comm.append_left _)
      refine (owns_notified n.event ho).perm ?_
      rw [List.append_assoc]
      exact List.perm_append_comm.append_left _
    · have hevents := hi.events
      have hnew : (s.heap.notified n.event).events.map Option.isSome =
          s.heap.events.map Option.isSome ++ [n.event.additionData.isSome] := by
        cases hd : n.event.additionData with
        | none => simp [Heap.notified, hd]
        | some data => simp [Heap.notified, hd, Holder.allocate]
      simp only [notify_eq, Receiver.notifyEvent, List.map_append, hnew, hevents, List.map_cons,
        List.map_nil]
  | simulate own => exact ⟨hi.owned, hi.events, hi.request⟩
  | refuse c b hr => exact invariant_received hi (hcall _ _ _ _ _ hr)
  | serve g c b hr hne =>
    exact invariant_handled hq g (invariant_received hi (hcall _ _ _ _ _ hr)) hne

theorem invariant_of_reachable (hq : QueueContract h)
    (hcall : ∀ c b result c' b', com.Receives (c, b) result (c', b') → Call com c b c' b')
    (hs : Reachable com h s) : Invariant com s := by
  induction hs with
  | start receiver own c hempty hc =>
    refine ⟨owns_empty, ?_, ?_⟩
    · rw [hempty]
      rfl
    · rw [hc]
      exact iff_of_true rfl rfl
  | step hs ht ih => exact invariant_step hq hcall ih ht

end

section

variable {h : Handlers (Receiver × τ)}

theorem lost_queues (hq : QueueContract h) {s : State τ MqCommunication}
    (hs : Reachable queues h s) : s.lost = [] := by
  have hreceived {s : State τ MqCommunication} {result : Bool} {c : MqCommunication} {b : Holder}
      (hs : Reachable queues h s) (hl : s.lost = [])
      (hr : queues.Receives (s.communication, s.holder) result (c, b)) :
      (s.received c b).lost = [] := by
    have hi := invariant_of_reachable hq (fun _ _ _ _ _ hr => (call_queues hr).1) hs
    have howned : OwnsWith s.holder (s.heap.buffers ++ s.lost) := hi.owned
    have howned' : OwnsWith b ([] ++ (s.heap.buffers ++ s.lost)) := (call_queues hr).2 _ howned
    have hlost := lost_eq howned howned' (Or.inl rfl)
    rw [← hl]
    exact congrArg (· ++ s.lost) hlost
  induction hs with
  | start receiver own c hempty hc => rfl
  | step hs ht ih =>
    cases ht with
    | notify n => exact ih
    | simulate own => exact ih
    | refuse c b hr => exact hreceived hs ih hr
    | serve g c b hr hne => exact hreceived hs ih hr

/-- Over the queues, a receiver has released every buffer exactly once but those of the queued
events and of its current request. Over the pipes it is the same but for former requests, and no
buffer is released twice. -/
theorem heap_accounted (hq : QueueContract h) :
    (∀ s, Reachable queues h s → Invariant queues s ∧ s.lost = []) ∧
      ∀ s, Reachable pipes h s → Invariant pipes s :=
  ⟨fun _ hs => ⟨invariant_of_reachable hq (fun _ _ _ _ _ hr => (call_queues hr).1) hs,
      lost_queues hq hs⟩,
    fun _ hs => invariant_of_reachable hq (fun _ _ _ _ _ hr => call_pipes hr) hs⟩

end

theorem queueHandlers_queueContract : QueueContract queueHandlers := by
  refine ⟨queueHandlers_contract, fun c v hc => ?_⟩
  cases c
  case handleContinue lastEvent => exact absurd rfl hc
  all_goals rfl

/-- CONTINUE comes in over the queues when a breakpoint was hit. Two buffers were in use. -/
theorem breakpoint_heap : ∃ s : State Unit MqCommunication,
    s.heap.ledger.created = 2 ∧ Invariant queues s ∧ s.lost = [] := by
  let c : MqCommunication := { pid := 1, mStarted := true }
  let s : State Unit MqCommunication := { receiver := freshReceiver, communication := c }
  let n : Notification := .breakpointHit [66]
  let t : State Unit MqCommunication :=
    { s with receiver := (n.notify freshReceiver.1, ()), heap := s.heap.notified n.event }
  have hs : Reachable queues queueHandlers s := .start freshReceiver.1 () c rfl rfl
  have ht : Reachable queues queueHandlers t := hs.step (.notify n)
  have hr : queues.Receives (c, t.holder) true
      ({ c with mCurrentReq := continueRequest }, t.holder) :=
    ⟨[.received (.ok [1, 0, 0, 0, 0])], rfl⟩
  have hu := ht.step (.serve .zero _ _ hr fun _ => List.cons_ne_nil _ _)
  exact ⟨_, rfl, (heap_accounted queueHandlers_queueContract).1 _ hu⟩

end VpTesting.ReceiverHeap

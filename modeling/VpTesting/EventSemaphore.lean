import Mathlib.Algebra.Order.BigOperators.Group.Finset
import Mathlib.Logic.Relation
import VpTesting.Fifo
import VpTesting.Processes
import VpTesting.TestingReceiver

namespace VpTesting.EventSemaphore

open VpTesting.Fifo VpTesting.Processes VpTesting.Types VpTesting.TestingReceiver

variable {τ : Type}

/-- Where a thread is: outside, in `notify_event` behind the append, or between
`wait_for_event` and `get_and_remove_first_event`. -/
inductive Stage
  | idle
  | appended
  | woken
  deriving DecidableEq

/-- The receiver object that the threads share, and the events appended and removed so far. -/
structure System (τ : Type) where
  receiver : Receiver
  stages : τ → Stage
  appended : List Event := []
  removed : List Event := []

/-- One step of one thread. -/
inductive Step [DecidableEq τ] (s : System τ) : System τ → Prop
  | append (i : τ) (newEvent : Event) (hi : s.stages i = .idle) :
    Step s
      { receiver := s.receiver.pushEvent newEvent
        stages := Function.update s.stages i .appended
        appended := s.appended ++ [newEvent]
        removed := s.removed }
  | post (i : τ) (hi : s.stages i = .appended) :
    Step s
      { s with
        receiver := s.receiver.postFullSlots
        stages := Function.update s.stages i .idle }
  | wait (i : τ) {r : Receiver} (hi : s.stages i = .idle) (hr : s.receiver.waitForEvent = some r) :
    Step s { s with receiver := r, stages := Function.update s.stages i .woken }
  | remove (i : τ) {lastEvent : Event} {r : Receiver} (hi : s.stages i = .woken)
    (hr : s.receiver.getAndRemoveFirstEvent = some (lastEvent, r)) :
    Step s
      { receiver := r
        stages := Function.update s.stages i .idle
        appended := s.appended
        removed := s.removed ++ [lastEvent] }

def Reachable [DecidableEq τ] : System τ → System τ → Prop := Relation.ReflTransGen Step

/-- As the constructor leaves the receiver, with no thread inside. -/
structure Fresh (s : System τ) : Prop where
  queue : s.receiver.mEventQueue = []
  slots : s.receiver.mFullSlots = 0
  stages : ∀ i, s.stages i = .idle
  appended : s.appended = []
  removed : s.removed = []

/-- The events in the queue that a thread inside stands for: one that is not posted yet, or
one that the thread is about to remove. -/
def owed : Stage → Nat
  | .idle => 0
  | .appended | .woken => 1

section

variable [Fintype τ]

/-- Each event in the queue has its full slot, or a thread that stands for it. -/
structure Invariant (s : System τ) : Prop where
  balanced : s.receiver.mEventQueue.length = s.receiver.mFullSlots + ∑ i, owed (s.stages i)
  conserved : Conserved s.appended s.removed s.receiver.mEventQueue

theorem invariant_of_fresh {s : System τ} (hs : Fresh s) : Invariant s := by
  constructor
  · rw [hs.queue, hs.slots, Finset.sum_eq_zero fun i _ => by rw [hs.stages i]; rfl]
    rfl
  · rw [hs.appended, hs.removed, hs.queue]
    exact .empty

variable [DecidableEq τ] {s t : System τ}

theorem sum_owed_update {i : τ} {stage : Stage} (hi : s.stages i = stage) (stage' : Stage) :
    ∑ j, owed (Function.update s.stages i stage' j) + owed stage =
      ∑ j, owed (s.stages j) + owed stage' := by
  subst hi
  exact sum_update_add (fun _ => owed) s.stages i stage'

theorem invariant_of_step (ht : Step s t) (hs : Invariant s) : Invariant t := by
  obtain ⟨hb, hc⟩ := hs
  cases ht with
  | append i newEvent hi =>
    have hsum : _ + 0 = _ + 1 := sum_owed_update hi .appended
    constructor
    · simp only [Receiver.pushEvent, List.length_append, List.length_singleton]
      omega
    · exact hc.push newEvent
  | post i hi =>
    have hsum : _ + 1 = _ + 0 := sum_owed_update hi .idle
    constructor
    · simp only [Receiver.postFullSlots]
      omega
    · exact hc
  | @wait i r hi hr =>
    have hsum : _ + 0 = _ + 1 := sum_owed_update hi .woken
    cases hslots : s.receiver.mFullSlots with
    | zero => simp [Receiver.waitForEvent, hslots] at hr
    | succ slots =>
      simp only [Receiver.waitForEvent, hslots, Option.some.injEq] at hr
      subst hr
      constructor
      · simp only
        omega
      · exact hc
  | @remove i lastEvent r hi hr =>
    have hsum : _ + 1 = _ + 0 := sum_owed_update hi .idle
    cases hqueue : s.receiver.mEventQueue with
    | nil => simp [Receiver.getAndRemoveFirstEvent, hqueue] at hr
    | cons e queue =>
      simp only [Receiver.getAndRemoveFirstEvent, hqueue, Option.some.injEq, Prod.mk.injEq] at hr
      obtain ⟨rfl, rfl⟩ := hr
      rw [hqueue] at hb hc
      constructor
      · simp only [List.length_cons] at hb
        simp only
        omega
      · exact hc.pop

theorem invariant_of_reachable (hs : Fresh s) (ht : Reachable s t) : Invariant t := by
  induction ht with
  | refl => exact invariant_of_fresh hs
  | tail _ hstep ih => exact invariant_of_step hstep ih

end

end VpTesting.EventSemaphore

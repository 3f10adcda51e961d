import VpTesting.MessageQueue
import VpTesting.Types

namespace VpTesting.QueueClearing

open VpTesting.MessageQueue VpTesting.MessageQueue.Program VpTesting.Types

variable {ν β : Type}

/-- The queue as `clear_mq` opens it. -/
def clearing (queue : ν) : Descriptor ν := { queue, access := .readOnly, nonblocking := true }

/-- What is done with the result of `mq_receive`: one error ends the loop, the others do not,
and there is another round. -/
def messageArrived : Except Errno (List β) → Program ν β (Option Unit)
  | .error .again => .done (some ())
  | _ => .done none

/-- One round of the loop in `clear_mq`. -/
def clearRound (mqd : Option (Descriptor ν)) : Program ν β (Option Unit) :=
  .mqReceive mqd mqMaxLength messageArrived

/-- What is done with the result of `mq_open`. The loop has no end of its own; after `rounds`
rounds without one the result is `none`. -/
def clearMq (mqd : Option (Descriptor ν)) (rounds : Nat) : Program ν β (Option Unit) :=
  if mqd.isNone then .done (some ()) else (clearRound mqd).loop rounds

variable [DecidableEq ν] (a : Attributes) (q : ν → List (List β)) (queue : ν)

/-- The clearing of an existing queue by itself, without interrupts, for a number of rounds. -/
def cleared (rounds : Nat) : Option (Option Unit × (ν → List (List β))) :=
  (clearMq (some (clearing queue)) rounds).run a (List.replicate rounds false) q

def Ends : Prop := ∃ rounds q', cleared a q queue rounds = some (some (), q')

omit [DecidableEq ν] in
theorem messageArrived_of_ne {r : Except Errno (List β)} (hr : r ≠ .error .again) :
    (messageArrived r : Program ν β (Option Unit)) = .done none := by
  cases r with
  | ok message => rfl
  | error e =>
    cases e with
    | again => exact absurd rfl hr
    | badf | msgsize | intr => rfl

variable {a q queue}

/-- With any result but the one error, the clearing goes on from the state that the receive
led to. -/
theorem cleared_succ {q' : ν → List (List β)} {r : Except Errno (List β)} {event : Event ν β}
    (hr : r ≠ .error .again)
    (hs : ∀ next : Except Errno (List β) → Program ν β (Option Unit),
      (mqReceive (some (clearing queue)) mqMaxLength next).step a false q =
        some ⟨next r, q', event⟩) (rounds : Nat) :
    cleared a q queue (rounds + 1) = cleared a q' queue rounds := by
  have hstep : ((clearRound (some (clearing queue))).loop (rounds + 1)).step a false q =
      some ⟨(messageArrived r).bind ((clearRound (some (clearing queue))).loop rounds).unlessSome,
        q', event⟩ := hs _
  have hrun : ((clearRound (some (clearing queue))).loop (rounds + 1)).run a
      (false :: List.replicate rounds false) q = _ := run_step hstep
  rw [messageArrived_of_ne hr] at hrun
  exact hrun

theorem step_clearing_msgsize (hl : mqMaxLength < a.messageSize)
    (next : Except Errno (List β) → Program ν β (Option Unit)) :
    (mqReceive (some (clearing queue)) mqMaxLength next).step a false q =
      some ⟨next (.error .msgsize), q, .silent⟩ := if_pos hl

theorem step_clearing_again (hl : a.messageSize ≤ mqMaxLength) (hq : q queue = [])
    (next : Except Errno (List β) → Program ν β (Option Unit)) :
    (mqReceive (some (clearing queue)) mqMaxLength next).step a false q =
      some ⟨next (.error .again), q, .silent⟩ := by
  have hd : q (clearing queue).queue = [] := hq
  simp only [step, if_neg (Nat.not_lt.mpr hl), hd]
  rfl

/-- A queue whose messages may be longer than the buffer is never cleared. -/
theorem cleared_msgsize (hl : mqMaxLength < a.messageSize) (rounds : Nat) :
    cleared a q queue rounds = some (none, q) := by
  induction rounds with
  | zero => rfl
  | succ rounds ih =>
    have hr : (.error .msgsize : Except Errno (List β)) ≠ .error .again := by
      rintro ⟨⟩
    rw [cleared_succ hr (step_clearing_msgsize hl), ih]

theorem cleared_empty (hl : a.messageSize ≤ mqMaxLength) (hq : q queue = []) (rounds : Nat) :
    cleared a q queue (rounds + 1) = some (some (), q) := by
  have hstep : ((clearRound (some (clearing queue))).loop (rounds + 1)).step a false q =
      some ⟨done (some ()), q, .silent⟩ := step_clearing_again hl hq _
  exact (run_step hstep).trans (run_done _ _)

/-- All others are empty after one round more than they have messages. -/
theorem cleared_all (hl : a.messageSize ≤ mqMaxLength) {messages : List (List β)}
    (hq : q queue = messages) :
    cleared a q queue (messages.length + 1) = some (some (), Function.update q queue []) := by
  induction messages generalizing q with
  | nil =>
    rw [cleared_empty hl hq, ← hq, Function.update_eq_self]
  | cons message rest ih =>
    have hr : (.ok message : Except Errno (List β)) ≠ .error .again := by
      rintro ⟨⟩
    have hrest : Function.update q queue rest queue = rest := Function.update_self _ _ _
    rw [List.length_cons, cleared_succ hr fun next => step_mqReceive_cons rfl hl hq]
    exact (ih hrest).trans (by rw [Function.update_idem])

/-- Clearing a queue ends exactly if its messages fit into the buffer. -/
theorem ends_iff (a : Attributes) (q : ν → List (List β)) (queue : ν) :
    Ends a q queue ↔ a.messageSize ≤ mqMaxLength := by
  constructor
  · rintro ⟨rounds, q', h⟩
    by_contra hl
    rw [cleared_msgsize (Nat.not_le.mp hl)] at h
    cases h
  · intro hl
    exact ⟨_, _, cleared_all hl rfl⟩

/-- A queue for messages of up to 8192 bytes that holds one of a single byte. -/
theorem largeMessages_not_ends :
    ¬Ends { maxMessages := 10, messageSize := 8192 }
      (fun _ => [[7]] : Unit → List (List UInt8)) () := by
  rintro ⟨rounds, q', h⟩
  rw [cleared_msgsize (by decide)] at h
  cases h

end VpTesting.QueueClearing

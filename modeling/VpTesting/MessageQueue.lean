import Mathlib.Data.List.Basic
import Mathlib.Logic.Function.Basic

namespace VpTesting.MessageQueue

variable {ν β α γ δ : Type}

inductive Access
  | readOnly | writeOnly | readWrite
  deriving DecidableEq

def Access.reads : Access → Bool
  | .writeOnly => false
  | .readOnly | .readWrite => true

def Access.writes : Access → Bool
  | .readOnly => false
  | .writeOnly | .readWrite => true

/-- An open queue, and how it was opened. -/
structure Descriptor (ν : Type) where
  queue : ν
  access : Access
  nonblocking : Bool := false
  deriving DecidableEq

structure Attributes where
  maxMessages : Nat
  messageSize : Nat

inductive Errno
  | badf | msgsize | again | intr
  deriving DecidableEq

/-- A program that calls message queue operations: it has ended with a value, or makes a
call and goes on with the result. An invalid descriptor is `none`. -/
inductive Program (ν β α : Type)
  | done (value : α)
  | mqOpen (queue : ν) (access : Access) (next : Option (Descriptor ν) → Program ν β α)
  | mqGetattr (d : Option (Descriptor ν)) (next : Option Nat → Program ν β α)
  | mqSend (d : Option (Descriptor ν)) (message : List β) (next : Bool → Program ν β α)
  | mqReceive (d : Option (Descriptor ν)) (length : Nat)
      (next : Except Errno (List β) → Program ν β α)

/-- What a call did to the queues. -/
inductive Event (ν β : Type)
  | silent
  | sent (queue : ν) (message : List β)
  | refused (message : List β)
  | received (queue : ν) (message : List β)

structure Stepped (ν β α : Type) where
  program : Program ν β α
  queues : ν → List (List β)
  event : Event ν β

namespace Program

def bind : Program ν β α → (α → Program ν β γ) → Program ν β γ
  | done value, f => f value
  | mqOpen queue access next, f => mqOpen queue access fun r => (next r).bind f
  | mqGetattr d next, f => mqGetattr d fun r => (next r).bind f
  | mqSend d message next, f => mqSend d message fun r => (next r).bind f
  | mqReceive d length next, f => mqReceive d length fun r => (next r).bind f

/-- Go on with a program unless there is a value already. -/
def unlessSome (p : Program ν β (Option α)) : Option α → Program ν β (Option α)
  | some value => done (some value)
  | none => p

/-- A loop that ends when its body yields a value, or after the given rounds. -/
def loop (body : Program ν β (Option α)) : Nat → Program ν β (Option α)
  | 0 => done none
  | rounds + 1 => body.bind (loop body rounds).unlessSome

theorem bind_assoc (p : Program ν β α) (f : α → Program ν β γ) (g : γ → Program ν β δ) :
    (p.bind f).bind g = p.bind fun x => (f x).bind g := by
  induction p with
  | done value => rfl
  | mqOpen queue access next ih => exact congrArg (mqOpen queue access) (funext ih)
  | mqGetattr d next ih => exact congrArg (mqGetattr d) (funext ih)
  | mqSend d message next ih => exact congrArg (mqSend d message) (funext ih)
  | mqReceive d length next ih => exact congrArg (mqReceive d length) (funext ih)

/-- Mapping the value of a loop is mapping the values of its body. -/
theorem map_loop (f : α → γ) (body : Program ν β (Option α)) (rounds : Nat) :
    (loop body rounds).bind (fun r => done (r.map f)) =
      loop (body.bind fun r => done (r.map f)) rounds := by
  induction rounds with
  | zero => rfl
  | succ rounds ih =>
    rw [loop, loop, bind_assoc, bind_assoc]
    apply congrArg
    funext r
    cases r with
    | none => exact ih
    | some value => rfl

variable [DecidableEq ν] (a : Attributes) (fails : Bool) (q : ν → List (List β))

/-- The next call of a program; `none` if the program has ended or the call blocks. If
`fails` is set, a call for opening, attributes or receiving fails, as it may for reasons
outside the queues. Messages have equal priority. -/
def step : Program ν β α → Option (Stepped ν β α)
  | done _ => none
  | mqOpen queue access next =>
    some ⟨next (if fails then none else some { queue, access }), q, .silent⟩
  | mqGetattr d next =>
    some ⟨next (if fails then none else d.map fun d => (q d.queue).length), q, .silent⟩
  | mqSend none message next => some ⟨next false, q, .refused message⟩
  | mqSend (some d) message next =>
    if d.access.writes = true ∧ message.length ≤ a.messageSize then
      if (q d.queue).length < a.maxMessages then
        some ⟨next true, Function.update q d.queue (q d.queue ++ [message]),
          .sent d.queue message⟩
      else none
    else some ⟨next false, q, .refused message⟩
  | mqReceive none _ next => some ⟨next (.error .badf), q, .silent⟩
  | mqReceive (some d) length next =>
    if fails then some ⟨next (.error .intr), q, .silent⟩
    else if d.access.reads = false then some ⟨next (.error .badf), q, .silent⟩
    else if length < a.messageSize then some ⟨next (.error .msgsize), q, .silent⟩
    else match q d.queue with
      | [] => if d.nonblocking then some ⟨next (.error .again), q, .silent⟩ else none
      | message :: rest =>
        some ⟨next (.ok message), Function.update q d.queue rest, .received d.queue message⟩

/-- Run a program by itself, with the schedule of the calls that fail; `none` if it blocks
or the schedule ends first. -/
def run : List Bool → Program ν β α → (ν → List (List β)) → Option (α × (ν → List (List β)))
  | _, done value, q => some (value, q)
  | [], _, _ => none
  | fails :: schedule, p, q => (p.step a fails q).bind fun r => run schedule r.program r.queues

variable {a fails q} {d : Descriptor ν} {message : List β} {length : Nat} {r : Stepped ν β α}

/-- A run is a call and the run of what it leads to. -/
theorem run_step {p : Program ν β α} {schedule : List Bool} (h : p.step a fails q = some r) :
    p.run a (fails :: schedule) q = r.program.run a schedule r.queues := by
  cases p with
  | done value => cases h
  | mqOpen | mqGetattr | mqSend | mqReceive =>
    rw [run, h, Option.bind_some]
    rintro value ⟨⟩

@[simp] theorem run_done (value : α) (schedule : List Bool) :
    (done value : Program ν β α).run a schedule q = some (value, q) := by
  cases schedule <;> rfl

section

variable {next : Bool → Program ν β α}

/-- A message that a queue can take is put at its end, once there is room. -/
theorem step_mqSend (hw : d.access.writes = true) (hl : message.length ≤ a.messageSize)
    (h : (mqSend (some d) message next).step a fails q = some r) :
    (q d.queue).length < a.maxMessages ∧
      r = ⟨next true, Function.update q d.queue (q d.queue ++ [message]),
        .sent d.queue message⟩ := by
  rw [step, if_pos ⟨hw, hl⟩] at h
  split at h
  · next hroom => exact ⟨hroom, (Option.some.inj h).symm⟩
  · cases h

theorem step_mqSend_refused (hn : ¬(d.access.writes = true ∧ message.length ≤ a.messageSize)) :
    (mqSend (some d) message next).step a fails q = some ⟨next false, q, .refused message⟩ := by
  rw [step, if_neg hn]

theorem step_mqSend_room (hw : d.access.writes = true) (hl : message.length ≤ a.messageSize)
    (hroom : (q d.queue).length < a.maxMessages) :
    (mqSend (some d) message next).step a fails q =
      some ⟨next true, Function.update q d.queue (q d.queue ++ [message]),
        .sent d.queue message⟩ := by
  rw [step, if_pos ⟨hw, hl⟩, if_pos hroom]

end

/-- A program whose last call is a send ends as it would whether or not the send fails. -/
theorem run_mqSend_done {schedule : List Bool} {d : Option (Descriptor ν)} {value value' : α}
    {q' : ν → List (List β)}
    (h : (mqSend d message fun _ => done value).run a schedule q = some (value', q')) :
    value' = value := by
  cases schedule with
  | nil => cases h
  | cons fails schedule =>
    obtain ⟨r, hr, hrun⟩ := Option.bind_eq_some_iff.mp h
    have hp : r.program = done value := by
      cases d with
      | none => rw [← Option.some.inj hr]
      | some d =>
        by_cases hm : d.access.writes = true ∧ message.length ≤ a.messageSize
        · rw [(step_mqSend hm.1 hm.2 hr).2]
        · rw [step_mqSend_refused hm] at hr
          rw [← Option.some.inj hr]
    rw [hp, run_done] at hrun
    exact (congrArg Prod.fst (Option.some.inj hrun)).symm

section

variable {next : Except Errno (List β) → Program ν β α}

/-- A blocking receive that is not interrupted takes the first message, once there is one. -/
theorem step_mqReceive (hr : d.access.reads = true) (hb : d.nonblocking = false)
    (hl : a.messageSize ≤ length)
    (h : (mqReceive (some d) length next).step a fails q = some r) :
    (fails = true ∧ r = ⟨next (.error .intr), q, .silent⟩) ∨
      ∃ message rest, q d.queue = message :: rest ∧
        r = ⟨next (.ok message), Function.update q d.queue rest, .received d.queue message⟩ := by
  simp only [step, hr, hb, Nat.not_lt.mpr hl, Bool.true_eq_false, Bool.false_eq_true,
    if_false] at h
  cases fails with
  | true => exact Or.inl ⟨rfl, (Option.some.inj h).symm⟩
  | false =>
    cases hq : q d.queue with
    | nil =>
      rw [hq] at h
      cases h
    | cons message rest =>
      rw [hq] at h
      exact Or.inr ⟨message, rest, rfl, (Option.some.inj h).symm⟩

theorem step_mqReceive_fails :
    (mqReceive (some d) length next).step a true q =
      some ⟨next (.error .intr), q, .silent⟩ := rfl

theorem step_mqReceive_cons (hr : d.access.reads = true) (hl : a.messageSize ≤ length)
    {rest : List (List β)} (hq : q d.queue = message :: rest) :
    (mqReceive (some d) length next).step a false q =
      some ⟨next (.ok message), Function.update q d.queue rest, .received d.queue message⟩ := by
  simp only [step, hr, hq, Nat.not_lt.mpr hl, Bool.true_eq_false, Bool.false_eq_true, if_false]

end

end Program

end VpTesting.MessageQueue

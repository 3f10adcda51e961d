import VpTesting.MessageQueue

namespace VpTesting.ProgramReplies

open VpTesting.MessageQueue VpTesting.MessageQueue.Program

variable {ν β α γ : Type}

/-- What a call returns to a program. -/
inductive Reply (ν β : Type)
  | opened (d : Option (Descriptor ν))
  | attributes (messages : Option Nat)
  | sent (success : Bool)
  | received (r : Except Errno (List β))

/-- A message that is received fits into a buffer of that length. -/
def Reply.Fits (length : Nat) : Reply ν β → Prop
  | .received (.ok message) => message.length ≤ length
  | _ => True

/-- Go on with a reply to the next call; `none` if the call has no such reply. A message that
is received fits into the buffer. -/
def reply : Reply ν β → Program ν β α → Option (Program ν β α)
  | .opened d, mqOpen _ _ next => some (next d)
  | .attributes messages, mqGetattr _ next => some (next messages)
  | .sent success, mqSend _ _ next => some (next success)
  | .received (.error e), mqReceive _ _ next => some (next (.error e))
  | .received (.ok message), mqReceive _ length next =>
    if message.length ≤ length then some (next (.ok message)) else none
  | _, _ => none

/-- The value that a program ends with if its calls return the replies. -/
def replay : List (Reply ν β) → Program ν β α → Option α
  | [], done value => some value
  | r :: replies, p => (reply r p).bind (replay replies)
  | _, _ => none

theorem replay_done {replies : List (Reply ν β)} {value value' : α}
    (h : replay replies (done value : Program ν β α) = some value') :
    replies = [] ∧ value' = value := by
  cases replies with
  | nil => exact ⟨rfl, (Option.some.inj h).symm⟩
  | cons r replies =>
    rw [replay] at h
    cases r with
    | opened | attributes | sent => cases h
    | received r =>
      cases r with
      | error e => cases h
      | ok message => cases h

/-- What a program ends with by the replies, with its value mapped. -/
theorem replay_map (f : α → γ) (p : Program ν β α) (replies : List (Reply ν β)) :
    replay replies (p.bind fun value => done (f value)) = (replay replies p).map f := by
  induction replies generalizing p with
  | nil => cases p <;> rfl
  | cons r replies ih =>
    have hreply : reply r (p.bind fun value => done (f value)) =
        (reply r p).map fun p => p.bind fun value => done (f value) := by
      cases r with
      | opened | attributes | sent => cases p <;> rfl
      | received r =>
        cases r with
        | error e => cases p <;> rfl
        | ok message =>
          cases p with
          | done | mqOpen | mqGetattr | mqSend => rfl
          | mqReceive d length next =>
            rw [Program.bind, reply, reply]
            split <;> rfl
    rw [replay, replay, hreply]
    cases reply r p with
    | none => rfl
    | some p => exact ih p

theorem replay_mqGetattr {replies : List (Reply ν β)} {d : Option (Descriptor ν)}
    {next : Option Nat → Program ν β α} {value : α}
    (h : replay replies (mqGetattr d next) = some value) :
    ∃ messages rest, replies = .attributes messages :: rest ∧
      replay rest (next messages) = some value := by
  cases replies with
  | nil => cases h
  | cons r rest =>
    rw [replay] at h
    cases r with
    | attributes messages => exact ⟨messages, rest, rfl, h⟩
    | opened | sent => cases h
    | received r =>
      cases r with
      | error e => cases h
      | ok message => cases h

theorem replay_mqSend {replies : List (Reply ν β)} {d : Option (Descriptor ν)} {message : List β}
    {next : Bool → Program ν β α} {value : α}
    (h : replay replies (mqSend d message next) = some value) :
    ∃ success rest, replies = .sent success :: rest ∧
      replay rest (next success) = some value := by
  cases replies with
  | nil => cases h
  | cons r rest =>
    rw [replay] at h
    cases r with
    | sent success => exact ⟨success, rest, rfl, h⟩
    | opened | attributes => cases h
    | received r =>
      cases r with
      | error e => cases h
      | ok message => cases h

theorem replay_mqReceive {replies : List (Reply ν β)} {d : Option (Descriptor ν)} {length : Nat}
    {next : Except Errno (List β) → Program ν β α} {value : α}
    (h : replay replies (mqReceive d length next) = some value) :
    ∃ r rest, replies = .received r :: rest ∧ replay rest (next r) = some value ∧
      (Reply.received r : Reply ν β).Fits length := by
  cases replies with
  | nil => cases h
  | cons r rest =>
    rw [replay] at h
    cases r with
    | opened | attributes | sent => cases h
    | received r =>
      cases r with
      | error e => exact ⟨.error e, rest, rfl, h, trivial⟩
      | ok message =>
        rw [reply] at h
        split_ifs at h with hl
        · exact ⟨.ok message, rest, rfl, h, hl⟩
        · cases h

section

variable [DecidableEq ν] {a : Attributes} {fails : Bool} {q : ν → List (List β)}
  {p : Program ν β α} {s : Stepped ν β α}

/-- No message in a queue is longer than its messages may be. -/
def Short (a : Attributes) (q : ν → List (List β)) : Prop :=
  ∀ n, ∀ message ∈ q n, message.length ≤ a.messageSize

theorem Short.send (hq : Short a q) (n : ν) {message : List β}
    (hm : message.length ≤ a.messageSize) :
    Short a (Function.update q n (q n ++ [message])) := by
  intro k m hk
  by_cases hn : k = n
  · subst hn
    rw [Function.update_self] at hk
    obtain hk | hk := List.mem_append.mp hk
    · exact hq k m hk
    · obtain rfl := List.mem_singleton.mp hk
      exact hm
  · rw [Function.update_of_ne hn] at hk
    exact hq k m hk

theorem Short.receive (hq : Short a q) {n : ν} {message : List β} {rest : List (List β)}
    (he : q n = message :: rest) : Short a (Function.update q n rest) := by
  intro k m hk
  by_cases hn : k = n
  · subst hn
    rw [Function.update_self] at hk
    exact hq k m (he ▸ List.mem_cons_of_mem message hk)
  · rw [Function.update_of_ne hn] at hk
    exact hq k m hk

theorem reply_message (hq : Short a q) {n : ν} {message : List β} {rest : List (List β)}
    (he : q n = message :: rest) {d : Option (Descriptor ν)} {length : Nat}
    {next : Except Errno (List β) → Program ν β α} (hl : a.messageSize ≤ length) :
    (∃ r, reply r (mqReceive d length next) = some (next (.ok message))) ∧
      Short a (Function.update q n rest) := by
  have hm : message.length ≤ a.messageSize := hq n message (he ▸ List.mem_cons_self)
  exact ⟨⟨.received (.ok message), if_pos (Nat.le_trans hm hl)⟩, hq.receive he⟩

/-- Every step of a program is a reply of the queues. -/
theorem reply_of_step (hq : Short a q) (h : p.step a fails q = some s) :
    (∃ r, reply r p = some s.program) ∧ Short a s.queues := by
  cases p with
  | done value => cases h
  | mqOpen queue access next =>
    obtain rfl := Option.some.inj h
    exact ⟨⟨.opened _, rfl⟩, hq⟩
  | mqGetattr d next =>
    obtain rfl := Option.some.inj h
    exact ⟨⟨.attributes _, rfl⟩, hq⟩
  | mqSend d message next =>
    cases d with
    | none =>
      obtain rfl := Option.some.inj h
      exact ⟨⟨.sent false, rfl⟩, hq⟩
    | some d =>
      by_cases hm : d.access.writes = true ∧ message.length ≤ a.messageSize
      · obtain ⟨-, rfl⟩ := step_mqSend hm.1 hm.2 h
        exact ⟨⟨.sent true, rfl⟩, hq.send d.queue hm.2⟩
      · rw [step_mqSend_refused hm] at h
        obtain rfl := Option.some.inj h
        exact ⟨⟨.sent false, rfl⟩, hq⟩
  | mqReceive d length next =>
    cases d with
    | none =>
      obtain rfl := Option.some.inj h
      exact ⟨⟨.received (.error .badf), rfl⟩, hq⟩
    | some d =>
      rw [step] at h
      split_ifs at h with hf hr hl
      · obtain rfl := Option.some.inj h
        exact ⟨⟨.received (.error .intr), rfl⟩, hq⟩
      · obtain rfl := Option.some.inj h
        exact ⟨⟨.received (.error .badf), rfl⟩, hq⟩
      · obtain rfl := Option.some.inj h
        exact ⟨⟨.received (.error .msgsize), rfl⟩, hq⟩
      · cases he : q d.queue with
        | nil =>
          rw [he] at h
          obtain rfl := Option.some.inj h
          exact ⟨⟨.received (.error .again), rfl⟩, hq⟩
        | cons message rest =>
          rw [he] at h
          obtain rfl := Option.some.inj h
          exact reply_message hq he (Nat.not_lt.mp hl)
      · cases he : q d.queue with
        | nil =>
          rw [he] at h
          cases h
        | cons message rest =>
          rw [he] at h
          obtain rfl := Option.some.inj h
          exact reply_message hq he (Nat.not_lt.mp hl)

/-- A run is a replay of the replies of the queues. -/
theorem replay_of_run {schedule : List Bool} {value : α} {q' : ν → List (List β)}
    (hq : Short a q) (h : p.run a schedule q = some (value, q')) :
    ∃ replies, replay replies p = some value := by
  induction schedule generalizing p q with
  | nil =>
    cases p with
    | done v =>
      obtain ⟨rfl, -⟩ := Prod.mk.inj (Option.some.inj h)
      exact ⟨[], rfl⟩
    | mqOpen | mqGetattr | mqSend | mqReceive => cases h
  | cons fails schedule ih =>
    cases hs : p.step a fails q with
    | none =>
      cases p with
      | done v =>
        obtain ⟨rfl, -⟩ := Prod.mk.inj (Option.some.inj h)
        exact ⟨[], rfl⟩
      | mqOpen | mqGetattr | mqSend | mqReceive =>
        rw [run, hs] at h
        · cases h
        · rintro value ⟨⟩
    | some s =>
      rw [run_step hs] at h
      obtain ⟨⟨r, hr⟩, hq⟩ := reply_of_step hq hs
      obtain ⟨replies, hreplay⟩ := ih hq h
      refine ⟨r :: replies, ?_⟩
      rw [replay, hr]
      exact hreplay

end

end VpTesting.ProgramReplies

import VpTesting.PipeTestingClient

namespace VpTesting.FrameWrites

open VpTesting.Types VpTesting.TestingCommunication VpTesting.Pipe VpTesting.PipeFrames
  VpTesting.PipeTestingCommunication VpTesting.PipeTestingClient

/-- What a write of `length` bytes returns. -/
def count (length : Nat) : WriteOutcome → Option Nat
  | .error => none
  | .short count => some (min count length)
  | .full => some length

theorem write_eq (o : WriteOutcome) (bytes pipe : List UInt8) :
    write o bytes pipe =
      ⟨count bytes.length o, pipe ++ bytes.take ((count bytes.length o).getD 0)⟩ := by
  cases o with
  | error => simp [write, count]
  | short n => simp [write, count, List.take_eq_take_min]
  | full => simp [write, count]

theorem count_le {length n : Nat} {o : WriteOutcome} (ho : count length o = some n) :
    n ≤ length := by
  cases o with
  | error => cases ho
  | short k =>
    obtain rfl := Option.some.inj ho
    exact Nat.min_le_right _ _
  | full => exact Nat.le_of_eq (Option.some.inj ho).symm

def header (first : UInt8) (p : Payload) : List UInt8 := first :: be32 p.length

theorem length_header (first : UInt8) (p : Payload) : (header first p).length = 5 := by
  rw [header, List.length_cons, length_be32]

theorem frame_eq (first : UInt8) (p : Payload) : frame first p = header first p ++ p.bytes := rfl

/-- A frame is written up to the counts of its two writes. -/
theorem writeFrame_eq (first : UInt8) (p : Payload) (head body : WriteOutcome)
    (pipe : List UInt8) :
    writeFrame first p.pointer p.length head body pipe =
      match count 5 head, count p.bytes.length body with
      | none, _ => (false, pipe)
      | some i, none => (false, pipe ++ (header first p).take i)
      | some i, some j => (true, pipe ++ ((header first p).take i ++ p.bytes.take j)) := by
  have hb := int32ToBytes_append p.length.toInt32 [first] [0, 0, 0, 0] [] rfl
  simp only [List.append_nil, List.singleton_append, List.length_singleton,
    UInt32.toUInt32_toInt32] at hb
  have hh : first :: be32 p.length = header first p := rfl
  simp only [writeFrame, hb, hh, write_eq, Payload.getD_pointer, Payload.toNat_length,
    List.take_length, length_header]
  cases count 5 head with
  | none => simp
  | some i =>
    cases count p.bytes.length body with
    | none => simp
    | some j => simp

/-- The two sides that send frames. -/
inductive Sender
  | client (c : PipeClient)
  | communication (c : PipeCommunication)

namespace Sender

def mStarted : Sender → Bool
  | client c => c.mStarted
  | communication c => c.mStarted

/-- Whether the sender goes on as if it had sent the frame, and what the pipe then holds. -/
def send (first : UInt8) (p : Payload) (head body : WriteOutcome) (pipe : List UInt8) :
    Sender → Bool × List UInt8
  | client c =>
    if c.mStarted then PipeClient.writeRequest (Request.of first p) head body pipe
    else (false, pipe)
  | communication c => c.sendResponse (Response.of first p) head body pipe

theorem send_eq (s : Sender) (first : UInt8) (p : Payload) (head body : WriteOutcome)
    (pipe : List UInt8) :
    s.send first p head body pipe =
      if s.mStarted then writeFrame first p.pointer p.length head body pipe
      else (false, pipe) := by
  cases s <;> rfl

end Sender

/-- The sender goes on only if the whole frame is in the pipe, and fails only if no part
of it is. -/
def AllOrNothing (frame pipe : List UInt8) (r : Bool × List UInt8) : Prop :=
  r.2 = if r.1 then pipe ++ frame else pipe

instance (frame pipe : List UInt8) (r : Bool × List UInt8) :
    Decidable (AllOrNothing frame pipe r) := inferInstanceAs (Decidable (_ = _))

/-- The write of the header fails, both writes return their full counts, or the write of
the header returns 0 and that of the data fails. -/
def Clean (p : Payload) (head body : WriteOutcome) : Prop :=
  count 5 head = none ∨
    (count 5 head = some 5 ∧ count p.bytes.length body = some p.bytes.length) ∨
      (count 5 head = some 0 ∧ count p.bytes.length body = none)

theorem take_append_take_eq_iff {α : Type} {xs ys : List α} {i j : Nat} (hi : i ≤ xs.length)
    (hj : j ≤ ys.length) : xs.take i ++ ys.take j = xs ++ ys ↔ i = xs.length ∧ j = ys.length := by
  constructor
  · intro h
    have hl := congrArg List.length h
    rw [List.length_append, List.length_append, List.length_take_of_le hi,
      List.length_take_of_le hj] at hl
    omega
  · rintro ⟨rfl, rfl⟩
    rw [List.take_length, List.take_length]

theorem append_take_eq_self_iff {α : Type} {xs pipe : List α} {i : Nat} (hi : i ≤ xs.length) :
    pipe ++ xs.take i = pipe ↔ i = 0 := by
  rw [List.append_right_eq_self, ← List.length_eq_zero_iff, List.length_take_of_le hi]

theorem allOrNothing_writeFrame (first : UInt8) (p : Payload) (head body : WriteOutcome)
    (pipe : List UInt8) :
    AllOrNothing (frame first p) pipe (writeFrame first p.pointer p.length head body pipe) ↔
      Clean p head body := by
  rw [writeFrame_eq, Clean, AllOrNothing]
  cases hh : count 5 head with
  | none => simp
  | some i =>
    have hi : i ≤ (header first p).length := by
      rw [length_header]
      exact count_le hh
    cases hb : count p.bytes.length body with
    | none =>
      simp only [Bool.false_eq_true, if_false, append_take_eq_self_iff hi]
      simp
    | some j =>
      have hj := count_le hb
      simp only [if_true, List.append_cancel_left_eq, frame_eq, take_append_take_eq_iff hi hj,
        length_header]
      simp

/-- Frame writes are all or nothing exactly if neither write stops short in between. -/
theorem allOrNothing_iff (s : Sender) (first : UInt8) (p : Payload) (head body : WriteOutcome)
    (pipe : List UInt8) :
    AllOrNothing (frame first p) pipe (s.send first p head body pipe) ↔
      (s.mStarted = true → Clean p head body) := by
  rw [Sender.send_eq]
  by_cases hs : s.mStarted = true
  · rw [if_pos hs]
    exact (allOrNothing_writeFrame first p head body pipe).trans
      ⟨fun hc _ => hc, fun hc => hc hs⟩
  · rw [if_neg hs]
    exact iff_of_true rfl fun h => absurd h hs

/-- The header of a KILL request is written, and then no data. -/
theorem kill_not_allOrNothing :
    ¬AllOrNothing (frame Command.kill.toByte (Payload.single 1)) []
      ((Sender.client { mStarted := true }).send Command.kill.toByte (Payload.single 1) .full
        .error []) := by
  decide

end VpTesting.FrameWrites

import Mathlib.Data.Stream.Init
import VpTesting.Pipe
import VpTesting.TestingCommunication

namespace VpTesting.ReceiveLoop

open VpTesting.ByteMemory VpTesting.Types VpTesting.Pipe

/-- The variables of the loop that receives the data of a frame, and the pipe. -/
structure LoopState where
  errorCount : Nat := 0
  receivedLength : Nat := 0
  buffer : List UInt8
  pipe : List UInt8

/-- One read of the loop. A result of -1 or 0 counts as an error. -/
def receiveStep (dataLength : Nat) (o : ReadOutcome) (s : LoopState) : Option LoopState :=
  (read o (dataLength - s.receivedLength) s.pipe).map fun r =>
    match r.bytes with
    | none | some [] => { s with errorCount := s.errorCount + 1, pipe := r.pipe }
    | some bytes =>
      { s with
        receivedLength := s.receivedLength + bytes.length
        buffer := store s.buffer s.receivedLength bytes
        pipe := r.pipe }

/-- What the loop has left to do: bytes to receive and errors to tolerate. -/
def remaining (dataLength : Nat) (s : LoopState) : Nat :=
  dataLength - s.receivedLength + (pipeReadErrorMax - s.errorCount)

theorem remaining_receiveStep {dataLength : Nat} {o : ReadOutcome} {s s' : LoopState}
    (hl : s.receivedLength < dataLength) (hs : receiveStep dataLength o s = some s')
    (he : ¬pipeReadErrorMax ≤ s'.errorCount) :
    remaining dataLength s' < remaining dataLength s := by
  obtain ⟨r, -, hr⟩ := Option.map_eq_some_iff.mp hs
  unfold remaining
  split at hr
  · subst hr
    simp only at he ⊢
    omega
  · subst hr
    simp only at he ⊢
    omega
  · next bytes hne _ =>
    subst hr
    have hpos := List.length_pos_iff.mpr hne
    simp only
    omega

/-- The loop with the outcomes of its reads: whether it received all the data before
the fifth error, or `none` if a read blocks for good. -/
def receiveLoop (dataLength : Nat) (outcomes : Stream' ReadOutcome) (s : LoopState) :
    Option (Bool × LoopState) :=
  if _ : s.receivedLength < dataLength then
    match _ : receiveStep dataLength outcomes.head s with
    | none => none
    | some s' =>
      if _ : pipeReadErrorMax ≤ s'.errorCount then some (false, s')
      else receiveLoop dataLength outcomes.tail s'
  else some (true, s)
termination_by remaining dataLength s
decreasing_by exact remaining_receiveStep ‹_› ‹_› ‹_›

/-- The reads of one call that meet with data: the header in one read, the payload in
chunks of any size. -/
def arrival (chunks : Stream' Nat) : Stream' ReadOutcome :=
  Stream'.cons (.data 4) (chunks.map .data)

/-- How the reception of the data of a frame ends: with the pointer to them, null if
there are none, or given up after too many errors. -/
inductive DataResult
  | received (data : Option (List UInt8)) (pipe : List UInt8)
  | aborted (pipe : List UInt8)

/-- Receive the data of a frame; `none` if a read blocks for good. Data are expected
only for a length of more than one. -/
def receiveData (dataLength : UInt32) (outcomes : Stream' ReadOutcome) (pipe : List UInt8) :
    Option DataResult :=
  if 1 < dataLength.toNat then
    (receiveLoop dataLength.toNat outcomes
      { buffer := List.replicate dataLength.toNat 0, pipe }).map fun r =>
        if r.1 then .received (some r.2.buffer) r.2.pipe else .aborted r.2.pipe
  else some (.received none pipe)

variable {dataLength : Nat} {outcomes : Stream' ReadOutcome} {s s' : LoopState}

theorem receiveLoop_of_done (hl : dataLength ≤ s.receivedLength) :
    receiveLoop dataLength outcomes s = some (true, s) := by
  rw [receiveLoop, dif_neg (Nat.not_lt.mpr hl)]

theorem receiveLoop_of_blocked (hl : s.receivedLength < dataLength)
    (hs : receiveStep dataLength outcomes.head s = none) :
    receiveLoop dataLength outcomes s = none := by
  rw [receiveLoop, dif_pos hl]
  split
  · rfl
  · next t ht =>
    rw [hs] at ht
    cases ht

theorem receiveLoop_eq_ite (hl : s.receivedLength < dataLength)
    (hs : receiveStep dataLength outcomes.head s = some s') :
    receiveLoop dataLength outcomes s =
      if pipeReadErrorMax ≤ s'.errorCount then some (false, s')
      else receiveLoop dataLength outcomes.tail s' := by
  rw [receiveLoop, dif_pos hl]
  split
  · next hn =>
    rw [hs] at hn
    cases hn
  · next t ht =>
    obtain rfl : s' = t := Option.some.inj (hs.symm.trans ht)
    exact dite_eq_ite

theorem receiveLoop_of_step (hl : s.receivedLength < dataLength)
    (hs : receiveStep dataLength outcomes.head s = some s')
    (he : ¬pipeReadErrorMax ≤ s'.errorCount) :
    receiveLoop dataLength outcomes s = receiveLoop dataLength outcomes.tail s' := by
  rw [receiveLoop_eq_ite hl hs, if_neg he]

theorem receiveLoop_of_errors (hl : s.receivedLength < dataLength)
    (hs : receiveStep dataLength outcomes.head s = some s')
    (he : pipeReadErrorMax ≤ s'.errorCount) :
    receiveLoop dataLength outcomes s = some (false, s') := by
  rw [receiveLoop_eq_ite hl hs, if_pos he]

/-- What every read keeps, the loop keeps. It ends well only with all the data. -/
theorem receiveLoop_keeps {P : LoopState → Prop} {complete : Bool}
    (hstep : ∀ o s t, P s → receiveStep dataLength o s = some t → P t) (hs : P s)
    (hr : receiveLoop dataLength outcomes s = some (complete, s')) :
    P s' ∧ (complete = true → dataLength ≤ s'.receivedLength) := by
  induction hk : remaining dataLength s using Nat.strong_induction_on generalizing outcomes s with
  | _ k ih =>
    subst hk
    by_cases hl : s.receivedLength < dataLength
    · cases ht : receiveStep dataLength outcomes.head s with
      | none =>
        rw [receiveLoop_of_blocked hl ht] at hr
        cases hr
      | some t =>
        have hP := hstep _ _ _ hs ht
        rw [receiveLoop_eq_ite hl ht] at hr
        split_ifs at hr with he
        · obtain ⟨rfl, rfl⟩ := Prod.mk.inj (Option.some.inj hr)
          exact ⟨hP, fun h => absurd h Bool.false_ne_true⟩
        · exact ih _ (remaining_receiveStep hl ht he) hP hr rfl
    · have hl := Nat.not_lt.mp hl
      rw [receiveLoop_of_done hl] at hr
      obtain ⟨rfl, rfl⟩ := Prod.mk.inj (Option.some.inj hr)
      exact ⟨hs, fun _ => hl⟩

theorem length_buffer_receiveStep {o : ReadOutcome} (hs : receiveStep dataLength o s = some s') :
    s'.buffer.length = s.buffer.length := by
  obtain ⟨r, -, hr⟩ := Option.map_eq_some_iff.mp hs
  split at hr
  · subst hr
    rfl
  · subst hr
    rfl
  · subst hr
    exact length_store _ _ _

/-- The data received are a buffer of their length, but for a length of at most one. -/
theorem receiveData_received {dataLength : UInt32} {pipe left : List UInt8}
    {data : Option (List UInt8)}
    (hr : receiveData dataLength outcomes pipe = some (.received data left)) :
    if 1 < dataLength.toNat then ∃ bytes, data = some bytes ∧ bytes.length = dataLength.toNat
    else data = none := by
  unfold receiveData at hr
  split_ifs at hr ⊢ with hl
  · obtain ⟨⟨complete, t⟩, hloop, hr⟩ := Option.map_eq_some_iff.mp hr
    have hk := receiveLoop_keeps (P := fun t => t.buffer.length = dataLength.toNat)
      (fun _ _ _ hP hs => (length_buffer_receiveStep hs).trans hP) List.length_replicate hloop
    cases complete with
    | true =>
      injection hr with hd
      subst hd
      exact ⟨t.buffer, rfl, hk.1⟩
    | false => cases hr
  · injection hr with hr
    injection hr with hd
    exact hd.symm

theorem store_prefix (done old bytes : List UInt8) (h : bytes.length ≤ old.length) :
    store (done ++ old) done.length bytes = done ++ bytes ++ old.drop bytes.length := by
  have hs := store_append done (old.take bytes.length) (old.drop bytes.length) bytes
    (List.length_take_of_le h)
  rwa [List.append_assoc, List.take_append_drop] at hs

/-- A read of data moves what it returns from the pipe to the buffer. -/
theorem receiveStep_of_read {o : ReadOutcome} {errorCount needed : Nat}
    {done old pipe bytes left : List UInt8} (hb : bytes ≠ []) (hl : bytes.length ≤ old.length)
    (hr : Pipe.read o needed pipe = some ⟨some bytes, left⟩) :
    receiveStep (done.length + needed) o ⟨errorCount, done.length, done ++ old, pipe⟩ =
      some ⟨errorCount, (done ++ bytes).length, done ++ bytes ++ old.drop bytes.length, left⟩ := by
  rw [receiveStep, Nat.add_sub_cancel_left, hr, ← store_prefix done old bytes hl,
    List.length_append]
  cases bytes with
  | nil => exact absurd rfl hb
  | cons x bytes => rfl

/-- If there are enough of them, these are the first bytes still needed. -/
theorem receiveStep_data (more errorCount : Nat) (done old needed rest : List UInt8)
    (hn : needed ≠ []) (ho : old.length = needed.length) :
    receiveStep (done.length + needed.length) (.data more)
      ⟨errorCount, done.length, done ++ old, needed ++ rest⟩ =
      some ⟨errorCount, (done ++ needed.take (more + 1)).length,
        done ++ needed.take (more + 1) ++ old.drop (needed.take (more + 1)).length,
        needed.drop (more + 1) ++ rest⟩ := by
  have hle : (needed.take (more + 1)).length ≤ old.length := by
    rw [ho]
    exact List.length_take_le' _ _
  have hne : needed.take (more + 1) ≠ [] := by
    cases needed with
    | nil => exact absurd rfl hn
    | cons x needed => exact List.cons_ne_nil _ _
  exact receiveStep_of_read hne hle (read_data_append more needed rest hn)

/-- Data that arrive in chunks of any size are received to the last byte, in their
order, and nothing behind them is. -/
theorem receiveLoop_data (chunks : Stream' Nat) (errorCount : Nat)
    (he : errorCount < pipeReadErrorMax) (done old needed rest : List UInt8)
    (ho : old.length = needed.length) :
    receiveLoop (done.length + needed.length) (chunks.map .data)
      ⟨errorCount, done.length, done ++ old, needed ++ rest⟩ =
      some (true, ⟨errorCount, done.length + needed.length, done ++ needed, rest⟩) := by
  induction hk : needed.length using Nat.strong_induction_on
    generalizing chunks done old needed with
  | _ k ih =>
    subst hk
    by_cases hn : needed = []
    · subst hn
      obtain rfl := List.length_eq_zero_iff.mp ho
      exact receiveLoop_of_done (Nat.le_refl _)
    have hpos := List.length_pos_iff.mpr hn
    have hstep := receiveStep_data chunks.head errorCount done old needed rest hn ho
    rw [receiveLoop_of_step (by simpa using hpos) hstep (Nat.not_le.mpr he)]
    have htail := ih (needed.drop (chunks.head + 1)).length (by simp; omega) chunks.tail
      (done ++ needed.take (chunks.head + 1)) (old.drop (needed.take (chunks.head + 1)).length)
      (needed.drop (chunks.head + 1)) (by simp [ho]; omega) rfl
    have hlength : (done ++ needed.take (chunks.head + 1)).length +
        (needed.drop (chunks.head + 1)).length = done.length + needed.length := by
      simp
      omega
    have hdone : done ++ needed.take (chunks.head + 1) ++ needed.drop (chunks.head + 1) =
        done ++ needed := by
      rw [List.append_assoc, List.take_append_drop]
    rwa [hlength, hdone] at htail

/-- Data of any length but one are received as they were sent. -/
theorem receiveData_payload (chunks : Stream' Nat) (p : Payload) (rest : List UInt8)
    (hp : p.bytes.length ≠ 1) :
    receiveData p.length (chunks.map .data) (p.bytes ++ rest) =
      some (.received p.pointer rest) := by
  by_cases hl : 1 < p.bytes.length
  · have hne : p.bytes ≠ [] := List.ne_nil_of_length_pos (by omega)
    have hloop := receiveLoop_data chunks 0 (by decide) [] (List.replicate p.bytes.length 0) p.bytes
      rest List.length_replicate
    simp only [List.nil_append, List.length_nil, Nat.zero_add] at hloop
    rw [receiveData, Payload.toNat_length, if_pos hl, hloop, Payload.pointer_eq_some hne]
    rfl
  · have hnil : p.bytes = [] := List.length_eq_zero_iff.mp (by omega)
    rw [receiveData, Payload.toNat_length, if_neg hl, hnil, Payload.pointer_eq_none hnil,
      List.nil_append]

/-- A single byte of data is not looked for. -/
theorem receiveData_one (outcomes : Stream' ReadOutcome) (p : Payload) (rest : List UInt8)
    (hp : p.bytes.length = 1) :
    receiveData p.length outcomes (p.bytes ++ rest) = some (.received none (p.bytes ++ rest)) := by
  rw [receiveData, Payload.toNat_length, hp, if_neg (Nat.lt_irrefl 1)]

end VpTesting.ReceiveLoop

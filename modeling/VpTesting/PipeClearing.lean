import VpTesting.PipeSessions

namespace VpTesting.PipeClearing

open VpTesting.Types VpTesting.Pipe VpTesting.Completion VpTesting.PipePrograms
  VpTesting.PipePrograms.Process VpTesting.PipeTestingClient VpTesting.HandlerCalls
  VpTesting.TestPrograms VpTesting.Dialogues VpTesting.PipeSessions

variable {α σ : Type}

/-- A pipe behind the descriptor of an end of it, with the status flags of the descriptor. -/
structure PipeEnd where
  flags : UInt32
  pipe : List UInt8

def oNonblock : UInt32 := 2048

namespace PipeEnd

def Nonblocking (d : PipeEnd) : Prop := d.flags &&& oNonblock ≠ 0

instance (d : PipeEnd) : Decidable d.Nonblocking := inferInstanceAs (Decidable (_ ≠ _))

/-- A read that would block fails if the flags say so. -/
def read (o : ReadOutcome) (count : Nat) (d : PipeEnd) : Option (ReadResult UInt8) :=
  match Pipe.read o count d.pipe with
  | some r => some r
  | none => if d.Nonblocking then some ⟨none, d.pipe⟩ else none

/-- The loop in `clear_pipe`: it goes on while bytes are read. It is `none` if a read blocks or
the rounds do not suffice. -/
def clearLoop : Nat → Stream' ReadOutcome → PipeEnd → Option PipeEnd
  | 0, _, _ => none
  | rounds + 1, outcomes, d =>
    match d.read outcomes.head 1024 with
    | none => none
    | some ⟨some (_ :: _), pipe⟩ => clearLoop rounds outcomes.tail { d with pipe }
    | some r => some { d with pipe := r.pipe }

def clearPipe (rounds : Nat) (outcomes : Stream' ReadOutcome) (d : PipeEnd) : Option PipeEnd :=
  let flags := d.flags
  (clearLoop rounds outcomes { d with flags := flags ||| oNonblock }).map fun d => { d with flags }

variable {d : PipeEnd} {rounds : Nat}

theorem nonblocking_or (flags : UInt32) (pipe : List UInt8) :
    Nonblocking ⟨flags ||| oNonblock, pipe⟩ := by
  intro h
  have hor : (flags ||| oNonblock) &&& oNonblock = flags &&& oNonblock ||| oNonblock := by
    rw [← UInt32.toBitVec_inj, UInt32.toBitVec_and, UInt32.toBitVec_or, UInt32.toBitVec_or,
      UInt32.toBitVec_and, BitVec.and_or_distrib_right, BitVec.and_self]
  exact absurd (UInt32.or_eq_zero_iff.mp (hor.symm.trans h)).2 (by decide)

/-- A read that does not block ends the loop, or takes bytes from the front of the pipe. -/
theorem clearLoop_succ (hd : d.Nonblocking) (rounds : Nat) (outcomes : Stream' ReadOutcome) :
    (clearLoop (rounds + 1) outcomes d = some d ∧
      ((∃ more, outcomes.head = .data more) → d.pipe = [])) ∨
    ∃ k, 0 < k ∧ d.pipe ≠ [] ∧
      clearLoop (rounds + 1) outcomes d =
        clearLoop rounds outcomes.tail { d with pipe := d.pipe.drop k } := by
  cases ho : outcomes.head with
  | error | empty =>
    refine Or.inl ⟨?_, ?_⟩
    · rw [clearLoop, read, ho]
      rfl
    · rintro ⟨more, ⟨⟩⟩
  | data more =>
    cases hp : d.pipe with
    | nil =>
      have hr : d.read (.data more) 1024 = some ⟨none, d.pipe⟩ := by
        rw [read, hp]
        exact if_pos hd
      refine Or.inl ⟨?_, fun _ => rfl⟩
      rw [clearLoop, ho, hr]
    | cons byte pipe =>
      have hk : 0 < min (more + 1) 1024 := by omega
      have hr : d.read (.data more) 1024 =
          some ⟨some (byte :: pipe.take (min (more + 1) 1024 - 1)),
            (byte :: pipe).drop (min (more + 1) 1024)⟩ := by
        rw [read, hp, ← List.take_cons hk]
        rfl
      refine Or.inr ⟨min (more + 1) 1024, hk, List.cons_ne_nil _ _, ?_⟩
      rw [clearLoop, ho, hr]

/-- The loop ends, with nothing in the pipe but what is behind a read that failed. -/
theorem clearLoop_eq (outcomes : Stream' ReadOutcome) (hd : d.Nonblocking)
    (hr : d.pipe.length < rounds) :
    ∃ k, clearLoop rounds outcomes d = some { d with pipe := d.pipe.drop k } ∧
      ((∀ i, ∃ more, outcomes.get i = .data more) → d.pipe.drop k = []) := by
  induction rounds generalizing d outcomes with
  | zero => exact absurd hr (Nat.not_lt_zero _)
  | succ rounds ih =>
    obtain ⟨hloop, hdata⟩ | ⟨k, hk, hne, hloop⟩ := clearLoop_succ hd rounds outcomes
    · exact ⟨0, hloop, fun h => hdata (h 0)⟩
    · have hpos := List.length_pos_of_ne_nil hne
      have hlen : (d.pipe.drop k).length < rounds := by
        rw [List.length_drop]
        omega
      obtain ⟨k', hloop', hdata⟩ := ih (d := { d with pipe := d.pipe.drop k }) outcomes.tail hd
        hlen
      refine ⟨k + k', ?_, fun h => ?_⟩
      · rw [hloop, hloop', List.drop_drop]
      · rw [← List.drop_drop]
        exact hdata fun i => h (i + 1)

theorem clearPipe_eq (outcomes : Stream' ReadOutcome) (hr : d.pipe.length < rounds) :
    ∃ k, clearPipe rounds outcomes d = some { d with pipe := d.pipe.drop k } ∧
      ((∀ i, ∃ more, outcomes.get i = .data more) → d.pipe.drop k = []) := by
  obtain ⟨k, hloop, hdata⟩ := clearLoop_eq outcomes (nonblocking_or d.flags d.pipe) hr
  refine ⟨k, ?_, hdata⟩
  rw [clearPipe, hloop, Option.map_some]

end PipeEnd

/-- The answers that were left in the response pipe, and the receiver waiting: once the client has
cleared the pipe, its program comes to what it would come to with direct calls. -/
theorem session_after_clearing (h : Handlers σ) (l : Limits) (c : PipeClient)
    (R : TestedReceiver σ) (p : TestProgram α) (flags : UInt32) (left : List UInt8) (rounds : Nat)
    (outcomes : Stream' ReadOutcome) (ht : 5 ≤ l.atomic) (hc : c.mStarted = true)
    (ho : Orderly h R p) (hr : left.length < rounds)
    (hdata : ∀ i, ∃ more, outcomes.get i = .data more) :
    ∃ response, PipeEnd.clearPipe rounds outcomes ⟨flags, left⟩ = some ⟨flags, response⟩ ∧
      Completes (Connected.Step l (fun _ => none) fun s => some (round h s))
        ⟨ready (overPipes c p), ready (round h (listening R)), [], response⟩
        ⟨ready (.done (p.directly h R).1), ready (round h (listening (p.directly h R).2)),
          [], []⟩ := by
  obtain ⟨k, hcleared, hnil⟩ := PipeEnd.clearPipe_eq (d := ⟨flags, left⟩) outcomes hr
  refine ⟨left.drop k, hcleared, ?_⟩
  rw [hnil hdata]
  obtain ⟨es, m, n, hC, hR⟩ := plays_session ht hc ho
  exact completes (halted_done rfl) (halted_listening _) hC hR

/-- An answer of five bytes was left. -/
theorem lookAround_after_clearing :
    ∃ response, PipeEnd.clearPipe 6 (Stream'.const (.data 0)) ⟨0, [0, 0, 0, 0, 0]⟩ =
        some ⟨0, response⟩ ∧
      Completes (Connected.Step ⟨65536, 4096, by decide, by decide⟩ (fun _ => none)
          fun s => some (round (silent Unit) s))
        ⟨ready (overPipes { mStarted := true } lookAround),
          ready (round (silent Unit) (listening idleReceiver)), [], response⟩
        ⟨ready (.done (lookAround.directly (silent Unit) idleReceiver).1),
          ready (round (silent Unit)
            (listening (lookAround.directly (silent Unit) idleReceiver).2)), [], []⟩ := by
  have ho : Orderly (silent Unit) idleReceiver lookAround :=
    ⟨⟨by decide, by decide, by decide⟩, ⟨by decide, by decide, by decide⟩, trivial⟩
  exact session_after_clearing (silent Unit) _ { mStarted := true } idleReceiver lookAround 0
    [0, 0, 0, 0, 0] 6 (Stream'.const (.data 0)) (by decide) rfl ho (by decide)
    fun _ => ⟨0, rfl⟩

end VpTesting.PipeClearing

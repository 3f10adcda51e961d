import VpTesting.PipeSessions
import VpTesting.ReadyWaiting

namespace VpTesting.PipeLaunches

open VpTesting.Types VpTesting.Pipe VpTesting.Completion VpTesting.PipePrograms
  VpTesting.PipeTestingCommunication VpTesting.PipeTestingClient VpTesting.PipeProcesses
  VpTesting.HandlerCalls VpTesting.TestPrograms VpTesting.Dialogues VpTesting.PipeSessions
  VpTesting.ReadyWaiting

variable {α σ : Type}

/-- `set_communication`: a communication that is not started yet is started, whatever comes of
it. -/
def setCommunicationProgram (c : PipeCommunication) : PipeProgram PipeCommunication :=
  if c.mStarted then .done c else (startProgram c).map Prod.snd

/-- A receiver that is given its communication and goes into `receiver_loop`. -/
def launchProgram (h : Handlers σ) (s : PipeReceiver σ) : PipeProgram (PipeReceiver σ) :=
  (setCommunicationProgram s.1).bind fun c => round h (c, s.2)

/-- The receiver before its communication is started. -/
def unstarted (R : TestedReceiver σ) : PipeReceiver σ := ({ mCurrentReq := R.mCurrentReq }, R)

/-- The process of a test program, in `wait_for_ready` or behind it. -/
inductive Tester (α : Type)
  | waiting (c : PipeClient) (p : TestProgram α)
  | testing (P : Process UInt8 α)

/-- What a check makes of the tester: the loop in `wait_for_ready` goes on, or it ends. -/
def Tester.checked (p : TestProgram α) (r : Checked) : Tester α :=
  if r.result then .testing (.ready (overPipes r.client p)) else .waiting r.client p

theorem Tester.checked_of_missed {p : TestProgram α} {r : Checked} (hr : r.result = false) :
    Tester.checked p r = .waiting r.client p := if_neg (Bool.eq_false_iff.mp hr)

theorem Tester.checked_of_found {p : TestProgram α} {r : Checked} (hr : r.result = true) :
    Tester.checked p r = .testing (.ready (overPipes r.client p)) := if_pos hr

/-- A tester and the receiver that is launched for it, with their pipes. -/
structure Launch (α σ : Type) where
  tester : Tester α
  receiver : Process UInt8 (PipeReceiver σ)
  requests : List UInt8 := []
  responses : List UInt8 := []

/-- A step of either process. Between the two calls of a check the pipe can only grow, so that a
check is one step. A check that takes nothing from the pipe is none: it changes nothing, and the
loop may make it as often as it likes. -/
inductive Step (l : Limits) (h : Handlers σ) : Launch α σ → Launch α σ → Prop
  | check {c : PipeClient} {p : TestProgram α} {R : Process UInt8 (PipeReceiver σ)}
    {requests responses : List UInt8} {available : Bool} {o : ReadOutcome} {r : Checked}
    (ho : o = .error ∨ o = .data 5) (hr : c.checkForReady available o responses = some r)
    (ht : r.pipe ≠ responses) :
    Step l h ⟨.waiting c p, R, requests, responses⟩ ⟨.checked p r, R, requests, r.pipe⟩
  | tester {P P' : Process UInt8 α} {R : Process UInt8 (PipeReceiver σ)}
    {requests requests' responses responses' : List UInt8}
    (hP : Process.Step l (fun _ => none) P responses requests P' responses' requests') :
    Step l h ⟨.testing P, R, requests, responses⟩ ⟨.testing P', R, requests', responses'⟩
  | receiver {T : Tester α} {R R' : Process UInt8 (PipeReceiver σ)}
    {requests requests' responses responses' : List UInt8}
    (hR : Process.Step l (fun s => some (round h s)) R requests responses R' requests'
      responses') :
    Step l h ⟨T, R, requests, responses⟩ ⟨T, R', requests', responses'⟩

section

variable {c : PipeClient} {available : Bool} {o : ReadOutcome} {pipe : List UInt8} {r : Checked}

/-- A check takes a block of six bytes and compares it, or it changes nothing. -/
theorem checkForReady_cases (ho : o = .error ∨ o = .data 5)
    (hr : c.checkForReady available o pipe = some r) :
    (r.result = false ∧ r.client = c ∧ r.pipe = pipe) ∨
      6 ≤ pipe.length ∧ r.result = decide (pipe.take 6 = ready) ∧
        r.client = { c with mStarted := c.mStarted || decide (pipe.take 6 = ready) } ∧
        r.pipe = pipe.drop 6 := by
  by_cases hn : available = false ∨ o = .error ∨ pipe.length < 6
  · rw [checkForReady_none hn] at hr
    obtain rfl := Option.some.inj hr
    exact Or.inl ⟨rfl, rfl, rfl⟩
  · rw [not_or, not_or, Bool.not_eq_false, Nat.not_lt] at hn
    obtain ⟨rfl, hne, hl⟩ := hn
    obtain rfl := ho.resolve_left hne
    rw [checkForReady_six hl, compared_eq (List.length_take_of_le hl)] at hr
    obtain rfl := Option.some.inj hr
    exact Or.inr ⟨hl, rfl, rfl, rfl⟩

/-- A check that takes something takes the first block. -/
theorem checkForReady_block {block rest : List UInt8} (hl : block.length = 6)
    (ho : o = .error ∨ o = .data 5) (hr : c.checkForReady available o (block ++ rest) = some r)
    (ht : r.pipe ≠ block ++ rest) :
    r.result = decide (block = ready) ∧
      r.client = { c with mStarted := c.mStarted || decide (block = ready) } ∧ r.pipe = rest := by
  obtain ⟨-, -, hp⟩ | ⟨-, hresult, hclient, hp⟩ := checkForReady_cases ho hr
  · exact absurd hp ht
  · rw [← hl, List.take_left] at hresult hclient
    rw [← hl, List.drop_left] at hp
    exact ⟨hresult, hclient, hp⟩

/-- The checks that are no steps. -/
theorem check_in_vain (ho : o = .error ∨ o = .data 5)
    (hr : c.checkForReady available o pipe = some r) (hp : r.pipe = pipe) :
    r.result = false ∧ r.client = c := by
  obtain ⟨hresult, hclient, -⟩ | ⟨hl, -, -, hd⟩ := checkForReady_cases ho hr
  · exact ⟨hresult, hclient⟩
  · have hlen := congrArg List.length (hd.symm.trans hp)
    rw [List.length_drop] at hlen
    omega

end

section

/-- Whole blocks of six bytes, and none of them is the announcement. -/
def Stale (left : List UInt8) : Prop := 6 ∣ left.length ∧ ready ∉ blocks left

variable {block left rest : List UInt8}

theorem blocks_append (hl : block.length = 6) (rest : List UInt8) :
    blocks (block ++ rest) = block :: blocks rest := by
  have hlen : (block ++ rest).length / 6 = rest.length / 6 + 1 := by
    rw [List.length_append, hl]
    omega
  rw [blocks, hlen, List.range_succ_eq_map, List.map_cons, List.map_map, blocks]
  congr 1
  · rw [Nat.mul_zero, List.drop_zero, ← hl, List.take_left]
  · refine List.map_congr_left fun k _ => ?_
    have hk : 6 * (k + 1) = block.length + 6 * k := by omega
    rw [Function.comp_apply, hk, List.drop_length_add_append]

theorem Stale.cases (hs : Stale left) :
    left = [] ∨ ∃ block rest, left = block ++ rest ∧ block.length = 6 ∧ block ≠ ready ∧
      Stale rest := by
  obtain ⟨hd, hn⟩ := hs
  by_cases hl : left = []
  · exact Or.inl hl
  · have hpos := List.length_pos_iff.mpr hl
    have hlen : (left.take 6).length = 6 := List.length_take_of_le (by omega)
    rw [← List.take_append_drop 6 left, blocks_append hlen, List.mem_cons, not_or] at hn
    refine Or.inr ⟨left.take 6, left.drop 6, (List.take_append_drop 6 left).symm, hlen,
      Ne.symm hn.1, ?_, hn.2⟩
    rw [List.length_drop]
    omega

end

/-- The announcement as a message of its own. -/
def announcement : Frame UInt8 := ⟨ready, [], by decide⟩

section

variable {l : Limits} {h : Handlers σ} {R : TestedReceiver σ} {n : Nat}
  {F : Process UInt8 (PipeReceiver σ)} {acts : List (Act UInt8)}

/-- A launched receiver says the announcement and goes into the loop. -/
theorem plays_launch (ht : 6 ≤ l.atomic)
    (hR : Plays l (fun s => some (round h s)) F n (.ready (round h (listening R))) acts) :
    Plays l (fun s => some (round h s)) F (n + 1) (.ready (launchProgram h (unstarted R)))
      (.say announcement :: acts) :=
  .say (f := announcement) (Nat.lt_succ_self n) ht (.said hR)

end

section

variable {es : List (Exchange UInt8)} {B B' : List (Act UInt8)}
  {behind left input' output' : List UInt8}

/-- What the receiver has to say and to hear with so much behind the stale blocks: before the
announcement, or with it. -/
inductive Announces (es : List (Exchange UInt8)) : List (Act UInt8) → List UInt8 → Prop
  | before : Announces es (.say announcement :: answers es) []
  | behind {B : List (Act UInt8)} (hB : Lags [] B (answers es)) : Announces es B ready

theorem Announces.advances (hB : Announces es B behind)
    (ha : Advances B [] (left ++ behind) B' input' output') :
    ∃ behind', Announces es B' behind' ∧ input' = [] ∧ output' = left ++ behind' := by
  cases hB with
  | before =>
    obtain ⟨rfl, rfl, rfl⟩ | ⟨rfl, rfl, rfl⟩ := advances_say ha
    · exact ⟨[], .before, rfl, rfl⟩
    · exact ⟨ready, .behind (Or.inl rfl), rfl, List.append_assoc _ _ _⟩
  | behind hB =>
    obtain ⟨now, later, hnow, hB', rfl, rfl⟩ := hB.advances (fun _ _ _ => advances_answers_nil) ha
    obtain ⟨rfl, rfl⟩ := List.append_eq_nil_iff.mp hnow.symm
    exact ⟨ready, .behind hB', rfl, List.append_nil _⟩

end

section

variable {l : Limits} {h : Handlers σ} {p : TestProgram α} {es : List (Exchange UInt8)} {m k : Nat}
  {E : Process UInt8 α} {F : Process UInt8 (PipeReceiver σ)} {s t : Launch α σ}

/-- Where a launch is, with a bound on the steps to come: in `wait_for_ready`, or in the exchanges
of the test program. -/
inductive Goes (l : Limits) (h : Handlers σ) (p : TestProgram α) (es : List (Exchange UInt8))
    (m : Nat) (E : Process UInt8 α) (F : Process UInt8 (PipeReceiver σ)) : Nat → Launch α σ → Prop
  | waiting {n : Nat} {c : PipeClient} {R : Process UInt8 (PipeReceiver σ)}
    {left behind : List UInt8} {B : List (Act UInt8)} (hl : Stale left)
    (hR : Plays l (fun s => some (round h s)) F n R B) (hB : Announces es B behind) :
    Goes l h p es m E F (m + n + left.length + 1) ⟨.waiting c p, R, [], left ++ behind⟩
  | testing {k : Nat} {P : Process UInt8 α} {R : Process UInt8 (PipeReceiver σ)}
    {requests responses : List UInt8}
    (hk : Keeps l (fun _ => none) (fun s => some (round h s)) E F k ⟨P, R, requests, responses⟩) :
    Goes l h p es m E F k ⟨.testing P, R, requests, responses⟩

/-- A check takes a stale block, or the announcement behind them all. -/
theorem goes_check {n : Nat} {c : PipeClient} {R : Process UInt8 (PipeReceiver σ)}
    {left behind : List UInt8} {B : List (Act UInt8)} {available : Bool} {o : ReadOutcome}
    {r : Checked}
    (hC : Plays l (fun _ => none) E m (.ready (overPipes { mStarted := true } p)) (asks es))
    (hl : Stale left) (hR : Plays l (fun s => some (round h s)) F n R B)
    (hB : Announces es B behind) (ho : o = .error ∨ o = .data 5)
    (hr : c.checkForReady available o (left ++ behind) = some r) (ht : r.pipe ≠ left ++ behind) :
    ∃ k < m + n + left.length + 1, Goes l h p es m E F k ⟨.checked p r, R, [], r.pipe⟩ := by
  obtain rfl | ⟨block, rest, rfl, hb, hn, hrest⟩ := hl.cases
  · cases hB with
    | before =>
      obtain ⟨-, -, hp⟩ | ⟨hlen, -⟩ := checkForReady_cases ho hr
      · exact absurd hp ht
      · exact absurd hlen (by decide)
    | behind hB =>
      have hr' : c.checkForReady available o (ready ++ []) = some r := hr
      obtain ⟨hresult, hclient, hp⟩ := checkForReady_block rfl ho hr' ht
      rw [decide_eq_true rfl] at hresult hclient
      rw [Bool.or_true] at hclient
      rw [Tester.checked_of_found hresult, hclient, hp]
      exact ⟨m + n, Nat.lt_succ_self _, .testing ⟨m, n, asks es, B, rfl, hC, hR, .asking hB⟩⟩
  · rw [List.append_assoc] at hr ht
    obtain ⟨hresult, -, hp⟩ := checkForReady_block hb ho hr ht
    rw [decide_eq_false hn] at hresult
    rw [Tester.checked_of_missed hresult, hp, List.length_append, hb]
    exact ⟨_, by omega, .waiting hrest hR hB⟩

theorem goes_step (hE : Halted l (fun _ => none) E) (hF : Halted l (fun s => some (round h s)) F)
    (hC : Plays l (fun _ => none) E m (.ready (overPipes { mStarted := true } p)) (asks es))
    (hs : Goes l h p es m E F k s) (ht : Step l h s t) : ∃ k' < k, Goes l h p es m E F k' t := by
  cases hs with
  | waiting hl hR hB =>
    cases ht with
    | check ho hr hne => exact goes_check hC hl hR hB ho hr hne
    | receiver hstep =>
      obtain ⟨n', hlt, B', hR', ha⟩ := hR.step hF (fed_nil _) hstep
      obtain ⟨behind', hB', rfl, rfl⟩ := hB.advances ha
      exact ⟨_, by omega, .waiting hl hR' hB'⟩
  | testing hk =>
    cases ht with
    | tester hP =>
      obtain ⟨k', hlt, hk'⟩ := keeps_step hE hF hk (.asker hP)
      exact ⟨k', hlt, .testing hk'⟩
    | receiver hR =>
      obtain ⟨k', hlt, hk'⟩ := keeps_step hE hF hk (.answerer hR)
      exact ⟨k', hlt, .testing hk'⟩

/-- A check of six bytes that does not fail is a step. -/
theorem can_check {c : PipeClient} {R : Process UInt8 (PipeReceiver σ)}
    {requests responses : List UInt8} (hl : 6 ≤ responses.length) :
    ∃ t, Step l h ⟨.waiting c p, R, requests, responses⟩ t := by
  refine ⟨_, .check (Or.inr rfl) (checkForReady_six hl) fun hp => ?_⟩
  rw [compared_eq (List.length_take_of_le hl)] at hp
  have hlen := congrArg List.length hp
  rw [List.length_drop] at hlen
  omega

theorem goes_on (hs : Goes l h p es m E F k s) :
    (∃ t, Step l h s t) ∨ s = ⟨.testing E, F, [], []⟩ := by
  cases hs with
  | @waiting n c R left behind B hl hR hB =>
    obtain rfl | ⟨block, rest, rfl, hb, -⟩ := hl.cases
    · cases hB with
      | before =>
        obtain ⟨_, _, _, hstep⟩ := hR.can_say
        exact Or.inl ⟨_, .receiver hstep⟩
      | behind => exact Or.inl (can_check (by decide))
    · refine Or.inl (can_check ?_)
      rw [List.append_assoc, List.length_append, hb]
      exact Nat.le_add_right _ _
  | testing hk =>
    obtain ⟨m, n, A, B, -, hA, hB, hm⟩ := hk
    obtain ⟨t, ht⟩ | he := hm.goes_on hA hB
    · cases ht with
      | asker hP => exact Or.inl ⟨_, .tester hP⟩
      | answerer hR => exact Or.inl ⟨_, .receiver hR⟩
    · cases he
      exact Or.inr rfl

/-- From its launch on, too: a test program that waits for the announcement, and a receiver that
makes it, come to what the program would come to with direct calls, even with whole blocks of
something else before the announcement. -/
theorem launch_completes (h : Handlers σ) (l : Limits) (c : PipeClient) (R : TestedReceiver σ)
    (p : TestProgram α) (left : List UInt8) (ht : 6 ≤ l.atomic) (hl : Stale left)
    (ho : Orderly h R p) :
    Completes (Step l h)
      ⟨.waiting c p, .ready (launchProgram h (unstarted R)), [], left⟩
      ⟨.testing (.ready (.done (p.directly h R).1)),
        .ready (round h (listening (p.directly h R).2)), [], []⟩ := by
  obtain ⟨es, m, n, hC, hR⟩ :=
    plays_session (c := { mStarted := true }) (Nat.le_of_succ_le ht) rfl ho
  have hstart := Goes.waiting (E := .ready (.done (p.directly h R).1)) (c := c) (p := p) (m := m) hl
    (plays_launch ht hR) .before
  rw [List.append_nil] at hstart
  refine completes_of_measure ⟨_, hstart⟩ ?_ fun _ _ hs => goes_on hs
  exact fun _ _ _ hs hstep => goes_step (halted_done rfl) (halted_listening _) hC hs hstep

/-- Six bytes of something else were left. -/
theorem lookAround_from_launch :
    Completes (Step ⟨65536, 4096, by decide, by decide⟩ (silent Unit))
      ⟨.waiting {} lookAround, .ready (launchProgram (silent Unit) (unstarted idleReceiver)), [],
        [0, 0, 0, 0, 0, 0]⟩
      ⟨.testing (.ready (.done (lookAround.directly (silent Unit) idleReceiver).1)),
        .ready (round (silent Unit)
          (listening (lookAround.directly (silent Unit) idleReceiver).2)), [], []⟩ := by
  have ho : Orderly (silent Unit) idleReceiver lookAround :=
    ⟨⟨by decide, by decide, by decide⟩, ⟨by decide, by decide, by decide⟩, trivial⟩
  have hl : Stale [0, 0, 0, 0, 0, 0] := ⟨by decide, by decide⟩
  exact launch_completes (silent Unit) _ {} idleReceiver lookAround _ (by decide) hl ho

end

end VpTesting.PipeLaunches

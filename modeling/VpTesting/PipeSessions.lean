import VpTesting.Dialogues
import VpTesting.PipeProcesses
import VpTesting.TestPrograms

namespace VpTesting.PipeSessions

open VpTesting.ByteMemory VpTesting.Types VpTesting.TestingCommunication VpTesting.Completion
  VpTesting.PipePrograms VpTesting.PipePrograms.Process VpTesting.Dialogues VpTesting.PipeFrames
  VpTesting.FrameWrites VpTesting.ReceiveLoop VpTesting.PipeTestingCommunication
  VpTesting.PipeTestingClient VpTesting.PipeProcesses VpTesting.HandlerCalls
  VpTesting.TestPrograms

open VpTesting.ResponseObject (Failed)

variable {α γ σ : Type}

/-- A receiver with its communication over pipes. -/
abbrev PipeReceiver (σ : Type) := PipeCommunication × TestedReceiver σ

/-- One round of `receiver_loop`. -/
def round (h : Handlers σ) (s : PipeReceiver σ) : PipeProgram (PipeReceiver σ) :=
  (receiveRequestProgram s.1).bind fun
    | (false, c) => .done (c, s.2)
    | (true, c) =>
      let R := s.2.asked c.mCurrentReq
      (sendResponseProgram c (R.handled h).res).map fun _ => (c, R.served h)

/-- The receiver between two rounds. -/
def listening (R : TestedReceiver σ) : PipeReceiver σ :=
  ({ mStarted := true, mCurrentReq := R.mCurrentReq }, R)

theorem started_listening (R : TestedReceiver σ) : (listening R).1.mStarted = true := rfl

/-- Both sides agree on where the frames of a request and of its response end. -/
structure Agreed (payload : Payload) (res : Response) : Prop where
  request : payload.bytes.length ≠ 1
  response : ¬Failed res.responseStatus → res.dataLength ≠ 1
  failure : Failed res.responseStatus → res.dataLength = 0

def overPipes (c : PipeClient) : TestProgram α → PipeProgram α
  | .finished value => .done value
  | .request command payload res next =>
    (sendRequestProgram c (Request.of command payload) res).bind fun r => overPipes c (next r)

/-- They do in every call that the program comes to. -/
def Orderly (h : Handlers σ) (R : TestedReceiver σ) : TestProgram α → Prop
  | .finished _ => True
  | .request command payload res next =>
    let R := R.asked (Request.of command payload)
    Agreed payload (R.handled h).res ∧
      Orderly h (R.served h) (next (returned res (R.handled h).res))

/-- A payload behind its header. -/
def framed (first : UInt8) (p : Payload) : Frame UInt8 where
  header := header first p
  body := p.bytes
  header_ne := List.cons_ne_nil first (be32 p.length)

section

variable {l : Limits} {again : α → Option (PipeProgram α)} {E : Process UInt8 α} {m : Nat}
  {acts : List (Act UInt8)} {first : UInt8} {p : Payload}

theorem headerRead_header (first : UInt8) (p : Payload) :
    headerRead (some (header first p)) = some (first, p.length) := by
  have hl := length_header first p
  have hb := bytesToInt32_be32 [first] [] p.length (fun _ => 0)
  rw [List.append_nil] at hb
  rw [headerRead, if_neg (not_not.mpr hl)]
  exact congrArg some (Prod.ext rfl hb)

theorem plays_readHeader {g : Option (UInt8 × UInt32) → PipeProgram α}
    (hp : Plays l again E m (ready (g (some (first, p.length)))) (.hearRest p.bytes :: acts)) :
    Plays l again E (m + 1) (ready (readHeaderProgram.bind g))
      (.hear (framed first p) :: acts) := by
  rw [← headerRead_header first p] at hp
  have hh : Plays l again E (m + 1)
      (ready (.read (framed first p).header.length fun r => (Program.done (headerRead r)).bind g))
      (.hear (framed first p) :: acts) := .hear (Nat.lt_succ_self m) hp
  have hl : (framed first p).header.length = 5 := length_header first p
  rwa [hl] at hh

theorem int32ToBytes_header (first : UInt8) (p : Payload) :
    int32ToBytes p.length.toInt32 [first, 0, 0, 0, 0] 1 = header first p := by
  have hb := int32ToBytes_append p.length.toInt32 [first] [0, 0, 0, 0] [] rfl
  rw [List.append_nil, List.append_nil, UInt32.toUInt32_toInt32] at hb
  exact hb

theorem plays_writeFrame {g : Bool → PipeProgram α} {data : Option (List UInt8)}
    (hl : 5 ≤ l.atomic) (hd : data.getD [] = p.bytes)
    (hp : Plays l again E m (ready (g true)) acts) :
    Plays l again E (m + p.bytes.length + 3)
      (ready ((writeFrameProgram first data p.length).bind g)) (.say (framed first p) :: acts) := by
  have hbody : (data.getD []).take p.length.toNat = p.bytes := by
    rw [hd, Payload.toNat_length, List.take_length]
  have hh : (framed first p).header.length ≤ l.atomic := by
    rwa [framed, length_header]
  rw [writeFrameProgram, int32ToBytes_header, hbody]
  refine .say (Nat.lt_succ_self (m + p.bytes.length + 2)) hh ?_
  rw [← List.append_nil (framed first p).body]
  exact .write (Nat.lt_succ_self _) (.said hp)

theorem after_data {errorCount : Nat} {done old bytes : List UInt8} (hb : bytes ≠ [])
    (hl : bytes.length ≤ old.length) :
    (LoopVariables.mk errorCount done.length (done ++ old)).after (some bytes) =
      ⟨errorCount, (done ++ bytes).length, done ++ bytes ++ old.drop bytes.length⟩ := by
  rw [← store_prefix done old bytes hl, List.length_append]
  cases bytes with
  | nil => exact absurd rfl hb
  | cons b bytes => rfl

/-- The loop hears the bytes it needs, however they are split. -/
theorem plays_receiveLoop {g : Bool × LoopVariables → PipeProgram α} {errorCount : Nat}
    {done old needed : List UInt8} (he : errorCount < pipeReadErrorMax)
    (ho : old.length = needed.length)
    (hp : Plays l again E m
      (ready (g (true, ⟨errorCount, (done ++ needed).length, done ++ needed⟩))) acts) :
    Plays l again E (m + needed.length)
      (ready ((receiveLoopProgram (done.length + needed.length)
        ⟨errorCount, done.length, done ++ old⟩).bind g)) (.hearRest needed :: acts) := by
  induction hk : needed.length using Nat.strong_induction_on generalizing done old needed with
  | _ k ih =>
    subst hk
    by_cases hn : needed = []
    · subst hn
      obtain rfl := List.length_eq_zero_iff.mp ho
      rw [List.append_nil] at hp
      have hdone := receiveLoopProgram_of_done (v := ⟨errorCount, done.length, done ++ []⟩)
        (Nat.le_refl (done.length + ([] : List UInt8).length))
      rw [hdone, List.append_nil]
      exact .heard hp
    have hpos := List.length_pos_iff.mpr hn
    have hlt : done.length < done.length + needed.length := Nat.lt_add_of_pos_right hpos
    rw [receiveLoopProgram_of_lt (v := ⟨errorCount, done.length, done ++ old⟩) hlt,
      Nat.add_sub_cancel_left]
    refine .read (m := m + (needed.length - 1)) (by omega) hpos hn fun k hk hc hle => ?_
    have hlk : (needed.take k).length = k := List.length_take_of_le hle
    have hld : (needed.drop k).length = needed.length - k := List.length_drop
    have hne : needed.take k ≠ [] := List.ne_nil_of_length_pos (by omega)
    dsimp only
    rw [after_data hne (by omega), if_neg (Nat.not_le.mpr he)]
    rw [← List.take_append_drop k needed, ← List.append_assoc] at hp
    have hod : (old.drop (needed.take k).length).length = (needed.drop k).length := by
      rw [List.length_drop, hlk, hld, ho]
    have hnext := ih (needed.drop k).length (by omega) hod hp rfl
    have htotal : (done ++ needed.take k).length + (needed.drop k).length =
        done.length + needed.length := by
      rw [List.length_append]
      omega
    rw [htotal] at hnext
    exact hnext.mono (by omega)

theorem plays_receiveData {g : Option (Option (List UInt8)) → PipeProgram α}
    (hb : p.bytes.length ≠ 1) (hp : Plays l again E m (ready (g (some p.pointer))) acts) :
    Plays l again E (m + p.bytes.length) (ready ((receiveDataProgram p.length).bind g))
      (.hearRest p.bytes :: acts) := by
  rw [receiveDataProgram, Payload.toNat_length]
  by_cases hl : 1 < p.bytes.length
  · have hne : p.bytes ≠ [] := List.ne_nil_of_length_pos (by omega)
    rw [if_pos hl, Program.map_bind]
    rw [Payload.pointer_eq_some hne] at hp
    have hloop := @plays_receiveLoop α l again E m acts
      (fun r => g (if r.1 then some (some r.2.buffer) else none)) 0 []
      (List.replicate p.bytes.length 0) p.bytes (by decide) List.length_replicate hp
    rw [List.length_nil, Nat.zero_add, List.nil_append] at hloop
    exact hloop
  · have hnil : p.bytes = [] := List.length_eq_zero_iff.mp (by omega)
    rw [Payload.pointer_eq_none hnil] at hp
    rw [if_neg hl, hnil]
    exact .heard hp

theorem plays_readResponse {g : Bool × Response → PipeProgram α} {q : Payload}
    {prior res : Response} (ha : Agreed q res) (hd : res.data.getD [] = p.bytes)
    (hl : res.dataLength = p.length)
    (hp : Plays l again E m (ready (g (returned prior res))) acts) :
    Plays l again E (m + p.bytes.length + 1) (ready ((readResponseProgram prior).bind g))
      (.hear (framed res.responseStatus p) :: acts) := by
  rw [readResponseProgram, Program.bind_assoc]
  apply plays_readHeader
  dsimp only
  by_cases hf : Failed res.responseStatus
  · have hz : p.bytes = [] := by
      have hz := ha.failure hf
      rw [hl, ← UInt32.toNat_inj, Payload.toNat_length] at hz
      exact List.length_eq_zero_iff.mp hz
    rw [returned_of_failed hf] at hp
    rw [hz]
    by_cases he : res.responseStatus = Status.error.toByte
    · rw [if_pos he]
      exact .heard hp
    · rw [if_neg he, if_pos (hf.resolve_left he)]
      exact .heard hp
  · obtain ⟨he, hm⟩ := not_or.mp hf
    have hone : p.bytes.length ≠ 1 := by
      intro hone
      apply ha.response hf
      rw [hl, ← UInt32.toNat_inj, Payload.toNat_length, hone]
      rfl
    rw [returned_of_not_failed hf hd hl] at hp
    rw [if_neg he, if_neg hm, Program.map_bind]
    exact plays_receiveData hone hp

/-- The client says its request and hears the response. -/
theorem plays_sendRequest {c : PipeClient} {g : Bool × Response → PipeProgram α} {command : UInt8}
    {q : Payload} {prior res : Response} (ht : 5 ≤ l.atomic) (hc : c.mStarted = true)
    (ha : Agreed q res) (hd : res.data.getD [] = p.bytes) (hl : res.dataLength = p.length)
    (hp : Plays l again E m (ready (g (returned prior res))) acts) :
    ∃ n, Plays l again E n (ready ((sendRequestProgram c (Request.of command q) prior).bind g))
      (.say (framed command q) :: .hear (framed res.responseStatus p) :: acts) := by
  rw [sendRequestProgram, if_pos hc, Program.bind_assoc]
  have hq : (Request.of command q).data.getD [] = q.bytes := Request.of_data command q
  exact ⟨_, plays_writeFrame ht hq (plays_readResponse ha hd hl hp)⟩

/-- In a round the receiver hears a request and says its response. -/
theorem plays_round {F : Process UInt8 (PipeReceiver σ)} {h : Handlers σ} {R : TestedReceiver σ}
    {again : PipeReceiver σ → Option (PipeProgram (PipeReceiver σ))} {command : UInt8}
    {q : Payload} {R' : TestedReceiver σ} (hR : R' = R.asked (Request.of command q))
    (ht : 5 ≤ l.atomic) (hq : q.bytes.length ≠ 1)
    (hd : (R'.handled h).res.data.getD [] = p.bytes) (hl : (R'.handled h).res.dataLength = p.length)
    (hp : Plays l again F m (ready (.done (listening (R'.served h)))) acts) :
    Plays l again F (m + p.bytes.length + 3 + q.bytes.length + 1) (ready (round h (listening R)))
      (.hear (framed command q) ::
        .say (framed (R'.handled h).res.responseStatus p) :: acts) := by
  have hsend : Plays l again F (m + p.bytes.length + 3)
      (ready ((sendResponseProgram (listening R').1 (R'.handled h).res).map
        fun _ => listening (R'.served h)))
      (.say (framed (R'.handled h).res.responseStatus p) :: acts) := by
    rw [sendResponseProgram, if_pos (started_listening _), hl]
    exact plays_writeFrame ht hd hp
  rw [round, receiveRequestProgram, if_pos (started_listening _), Program.bind_assoc]
  apply plays_readHeader
  dsimp only
  rw [Program.map_bind]
  apply plays_receiveData hq
  subst hR
  exact hsend

end

section

variable {l : Limits} {h : Handlers σ} {c : PipeClient} {R : TestedReceiver σ} {p : TestProgram α}

/-- Client and receiver have the same exchanges, and are then where the direct calls end. -/
theorem plays_session (ht : 5 ≤ l.atomic) (hc : c.mStarted = true) (ho : Orderly h R p) :
    ∃ es m n,
      Plays l (fun _ => none) (ready (.done (p.directly h R).1)) m (ready (overPipes c p))
        (asks es) ∧
      Plays l (fun s => some (round h s)) (ready (round h (listening (p.directly h R).2))) n
        (ready (round h (listening R))) (answers es) := by
  induction p generalizing R with
  | finished value => exact ⟨[], 0, 0, .ended, .ended⟩
  | request command payload res next ih =>
    obtain ⟨ha, ho⟩ := ho
    obtain ⟨es, m, n, hC, hR⟩ := ih _ ho
    have hl := (R.asked (Request.of command payload)).dataLength_handled h
    obtain ⟨m', hC'⟩ := plays_sendRequest (g := fun r => overPipes c (next r)) ht hc ha rfl hl hC
    have hR' := plays_round rfl ht ha.request rfl hl (.again (Nat.lt_succ_self n) rfl hR)
    exact ⟨⟨framed command payload, framed _ _⟩ :: es, m', _, hC', hR'⟩

/-- A receiver that waits for a request halts. -/
theorem halted_listening (R : TestedReceiver σ) :
    Halted l (fun s => some (round h s)) (ready (round h (listening R))) := by
  rw [round, receiveRequestProgram, if_pos (started_listening _)]
  exact halted_read

/-- A program that tests a receiver through pipes comes to what it would come to if it called
`handle_request` itself: every interleaving of the two processes ends, however the bytes are split
and whatever the pipes hold, with the result of the direct calls, the receiver in the state of the
direct calls and nothing left in the pipes. -/
theorem session_completes (h : Handlers σ) (l : Limits) (c : PipeClient) (R : TestedReceiver σ)
    (p : TestProgram α) (ht : 5 ≤ l.atomic) (hc : c.mStarted = true) (ho : Orderly h R p) :
    Completes (Connected.Step l (fun _ => none) fun s => some (round h s))
      ⟨ready (overPipes c p), ready (round h (listening R)), [], []⟩
      ⟨ready (.done (p.directly h R).1), ready (round h (listening (p.directly h R).2)),
        [], []⟩ := by
  obtain ⟨es, m, n, hC, hR⟩ := plays_session ht hc ho
  exact completes (halted_done rfl) (halted_listening _) hC hR

theorem lookAround_over_pipes :
    Completes (Connected.Step ⟨65536, 4096, by decide, by decide⟩ (fun _ => none)
        fun s => some (round (silent Unit) s))
      ⟨ready (overPipes { mStarted := true } lookAround),
        ready (round (silent Unit) (listening idleReceiver)), [], []⟩
      ⟨ready (.done (true, ⟨0, some (List.replicate 8 0), 8⟩)),
        ready (round (silent Unit) (listening (lookAround.directly (silent Unit) idleReceiver).2)),
        [], []⟩ := by
  have ho : Orderly (silent Unit) idleReceiver lookAround :=
    ⟨⟨by decide, by decide, by decide⟩, ⟨by decide, by decide, by decide⟩, trivial⟩
  exact session_completes (silent Unit) _ { mStarted := true } idleReceiver lookAround (by decide)
    rfl ho

end

end VpTesting.PipeSessions

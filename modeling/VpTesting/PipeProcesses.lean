import VpTesting.FrameWrites
import VpTesting.PipePrograms

namespace VpTesting.PipeProcesses

open VpTesting.ByteMemory VpTesting.Types VpTesting.TestingCommunication VpTesting.Pipe
  VpTesting.PipePrograms VpTesting.PipeFrames VpTesting.ReceiveLoop
  VpTesting.PipeTestingCommunication VpTesting.PipeTestingClient

variable {α : Type}

abbrev PipeProgram := Program UInt8

def writeFrameProgram (first : UInt8) (data : Option (List UInt8)) (dataLength : UInt32) :
    PipeProgram Bool :=
  .write (int32ToBytes dataLength.toInt32 [first, 0, 0, 0, 0] 1) fun
    | none => .done false
    | some _ => .write ((data.getD []).take dataLength.toNat) fun
      | none => .done false
      | some _ => .done true

/-- The first byte and the data length of a header that was read. -/
def headerRead : Option (List UInt8) → Option (UInt8 × UInt32)
  | none => none
  | some header =>
    if header.length ≠ 5 then none
    else
      let buffer := view header (fun _ => 0)
      some (buffer 0, (bytesToInt32 buffer 1).toUInt32)

def readHeaderProgram : PipeProgram (Option (UInt8 × UInt32)) :=
  .read 5 fun r => .done (headerRead r)

/-- The variables of the loop that receives the data of a frame. -/
structure LoopVariables where
  errorCount : Nat := 0
  receivedLength : Nat := 0
  buffer : List UInt8

namespace LoopVariables

def remaining (dataLength : Nat) (v : LoopVariables) : Nat :=
  dataLength - v.receivedLength + (pipeReadErrorMax - v.errorCount)

/-- What the loop makes of a read. -/
def after (v : LoopVariables) : Option (List UInt8) → LoopVariables
  | none | some [] => { v with errorCount := v.errorCount + 1 }
  | some (b :: bytes) =>
    { v with
      receivedLength := v.receivedLength + (b :: bytes).length
      buffer := store v.buffer v.receivedLength (b :: bytes) }

def on (v : LoopVariables) (pipe : List UInt8) : LoopState :=
  ⟨v.errorCount, v.receivedLength, v.buffer, pipe⟩

variable {dataLength : Nat} {v : LoopVariables} {r : Option (List UInt8)}

@[simp] theorem on_errorCount (pipe : List UInt8) : (v.on pipe).errorCount = v.errorCount := rfl

theorem remaining_after (hl : v.receivedLength < dataLength)
    (he : ¬pipeReadErrorMax ≤ (v.after r).errorCount) :
    (v.after r).remaining dataLength < v.remaining dataLength := by
  unfold remaining
  match r with
  | none | some [] =>
    simp only [after] at he ⊢
    omega
  | some (b :: bytes) =>
    simp only [after, List.length_cons] at he ⊢
    omega

end LoopVariables

/-- Whether the loop received all data before the fifth error. -/
def receiveLoopProgram (dataLength : Nat) (v : LoopVariables) :
    PipeProgram (Bool × LoopVariables) :=
  if _ : v.receivedLength < dataLength then
    .read (dataLength - v.receivedLength) fun r =>
      if _ : pipeReadErrorMax ≤ (v.after r).errorCount then .done (false, v.after r)
      else receiveLoopProgram dataLength (v.after r)
  else .done (true, v)
termination_by v.remaining dataLength
decreasing_by exact LoopVariables.remaining_after ‹_› ‹_›

theorem receiveLoopProgram_of_done {dataLength : Nat} {v : LoopVariables}
    (hl : dataLength ≤ v.receivedLength) :
    receiveLoopProgram dataLength v = .done (true, v) := by
  rw [receiveLoopProgram, dif_neg (Nat.not_lt.mpr hl)]

theorem receiveLoopProgram_of_lt {dataLength : Nat} {v : LoopVariables}
    (hl : v.receivedLength < dataLength) :
    receiveLoopProgram dataLength v = .read (dataLength - v.receivedLength) fun r =>
      if pipeReadErrorMax ≤ (v.after r).errorCount then .done (false, v.after r)
      else receiveLoopProgram dataLength (v.after r) := by
  rw [receiveLoopProgram, dif_pos hl]
  rfl

/-- The pointer to the data of a frame, null if there are none; or none if they were given up. -/
def receiveDataProgram (dataLength : UInt32) : PipeProgram (Option (Option (List UInt8))) :=
  if 1 < dataLength.toNat then
    (receiveLoopProgram dataLength.toNat
      { buffer := List.replicate dataLength.toNat 0 }).map fun r =>
        if r.1 then some (some r.2.buffer) else none
  else .done (some none)

/-- `start` with the response pipe as output. -/
def startProgram (c : PipeCommunication) : PipeProgram (Bool × PipeCommunication) :=
  .write ready fun written =>
    if written = some ready.length then .done (true, { c with mStarted := true })
    else .done (false, c)

/-- `send_response` with the response pipe as output. -/
def sendResponseProgram (c : PipeCommunication) (res : Response) : PipeProgram Bool :=
  if c.mStarted then writeFrameProgram res.responseStatus res.data res.dataLength
  else .done false

/-- `receive_request` with the request pipe as input. -/
def receiveRequestProgram (c : PipeCommunication) : PipeProgram (Bool × PipeCommunication) :=
  if c.mStarted then
    readHeaderProgram.bind fun
      | none => .done (false, c)
      | some (command, dataLength) =>
        let req : Request := { requestCommand := command, data := none, dataLength }
        (receiveDataProgram dataLength).map fun
          | some data => (true, { c with mCurrentReq := { req with data } })
          | none => (false, { c with mCurrentReq := { req with dataLength := 0 } })
  else .done (false, c)

/-- The second half of `send_request`, with the response pipe as input. -/
def readResponseProgram (res : Response) : PipeProgram (Bool × Response) :=
  readHeaderProgram.bind fun
    | none => .done (false, res)
    | some (status, dataLength) =>
      let res := { res with data := none, responseStatus := status }
      if status = Status.error.toByte then .done (false, res)
      else if status = Status.malformed.toByte then .done (false, res)
      else
        let res := { res with dataLength }
        (receiveDataProgram dataLength).map fun
          | some data => (true, { res with data })
          | none =>
            (false, { responseStatus := Status.error.toByte, data := none, dataLength := 0 })

def sendRequestProgram (c : PipeClient) (req : Request) (res : Response) :
    PipeProgram (Bool × Response) :=
  if c.mStarted then
    (writeFrameProgram req.requestCommand req.data req.dataLength).bind fun
      | false => .done (false, res)
      | true => readResponseProgram res
  else .done (false, res)

section

variable {reads : Stream' ReadOutcome} {writes : Stream' WriteOutcome}
  {input output : List UInt8} {first : UInt8} {data : Option (List UInt8)} {dataLength : UInt32}

/-- By themselves, the programs are the functions on pipes. -/
theorem run_writeFrameProgram :
    (writeFrameProgram first data dataLength).run reads writes input output =
      some ⟨(writeFrame first data dataLength writes.head writes.tail.head output).1, input,
        (writeFrame first data dataLength writes.head writes.tail.head output).2⟩ := by
  rw [writeFrameProgram, writeFrame, Program.run]
  cases (Pipe.write writes.head (int32ToBytes dataLength.toInt32 [first, 0, 0, 0, 0] 1)
    output).written with
  | none => rfl
  | some count =>
    simp only [Program.run]
    cases (Pipe.write writes.tail.head _ _).written with
    | none => rfl
    | some count => rfl

theorem readHeader_eq (o : ReadOutcome) (pipe : List UInt8) :
    readHeader o pipe = (Pipe.read o 5 pipe).map fun r => (headerRead r.bytes, r.pipe) := by
  rw [readHeader]
  congr 1
  funext r
  cases r.bytes with
  | none => rfl
  | some header =>
    simp only [headerRead]
    split_ifs <;> rfl

theorem run_readHeaderProgram_bind {f : Option (UInt8 × UInt32) → PipeProgram α} :
    (readHeaderProgram.bind f).run reads writes input output =
      (readHeader reads.head input).bind fun r => (f r.1).run reads.tail writes r.2 output := by
  rw [readHeader_eq, Option.bind_map]
  rfl

theorem receiveStep_on {length : Nat} {o : ReadOutcome} {v : LoopVariables} :
    receiveStep length o (v.on input) =
      (Pipe.read o (length - v.receivedLength) input).map fun r => (v.after r.bytes).on r.pipe := by
  rw [receiveStep]
  congr 1
  funext r
  cases r.bytes with
  | none => rfl
  | some bytes =>
    cases bytes with
    | nil => rfl
    | cons b bytes => rfl

def variablesOf (s : LoopState) : LoopVariables := ⟨s.errorCount, s.receivedLength, s.buffer⟩

theorem run_receiveLoopProgram {length : Nat} {v : LoopVariables} :
    (receiveLoopProgram length v).run reads writes input output =
      (receiveLoop length reads (v.on input)).map fun r =>
        ⟨(r.1, variablesOf r.2), r.2.pipe, output⟩ := by
  induction hk : v.remaining length using Nat.strong_induction_on
    generalizing reads v input with
  | _ k ih =>
    subst hk
    by_cases hl : v.receivedLength < length
    · rw [receiveLoopProgram_of_lt hl, Program.run]
      cases hr : Pipe.read reads.head (length - v.receivedLength) input with
      | none =>
        rw [receiveLoop_of_blocked hl (by rw [receiveStep_on, hr]; rfl)]
        rfl
      | some r =>
        have hs : receiveStep length reads.head (v.on input) =
            some ((v.after r.bytes).on r.pipe) := by
          rw [receiveStep_on, hr]
          rfl
        rw [receiveLoop_eq_ite hl hs, LoopVariables.on_errorCount, Option.bind_some]
        by_cases he : pipeReadErrorMax ≤ (v.after r.bytes).errorCount
        · rw [if_pos he, if_pos he]
          rfl
        · rw [if_neg he, if_neg he]
          exact ih _ (LoopVariables.remaining_after hl he) rfl
    · have hl := Nat.not_lt.mp hl
      rw [receiveLoopProgram_of_done hl, receiveLoop_of_done hl]
      rfl

/-- What a reception of data comes to. -/
def received (output : List UInt8) : DataResult → Result UInt8 (Option (Option (List UInt8)))
  | .received data pipe => ⟨some data, pipe, output⟩
  | .aborted pipe => ⟨none, pipe, output⟩

theorem run_receiveDataProgram :
    (receiveDataProgram dataLength).run reads writes input output =
      (receiveData dataLength reads input).map (received output) := by
  rw [receiveDataProgram, receiveData]
  split_ifs with hl
  · rw [Program.run_map, run_receiveLoopProgram, Option.map_map, Option.map_map]
    congr 1
    funext r
    obtain ⟨complete, s⟩ := r
    cases complete with
    | true => rfl
    | false => rfl
  · rfl

theorem run_receiveRequestProgram {c : PipeCommunication} :
    (receiveRequestProgram c).run reads writes input output =
      (c.receiveRequest reads input).map fun r =>
        ⟨(r.result, r.communication), r.pipe, output⟩ := by
  rw [receiveRequestProgram, PipeCommunication.receiveRequest]
  split_ifs with hs
  · rw [run_readHeaderProgram_bind]
    obtain _ | ⟨_ | ⟨command, dataLength⟩, left⟩ := readHeader reads.head input
    · rfl
    · rfl
    · rw [Option.bind_some, Program.run_map, run_receiveDataProgram]
      dsimp only
      obtain _ | _ | _ := receiveData dataLength reads.tail left
      · rfl
      · rfl
      · rfl
  · rfl

theorem run_startProgram {c : PipeCommunication} :
    (startProgram c).run reads writes input output =
      some ⟨((c.start writes.head output).result, (c.start writes.head output).communication),
        input, (c.start writes.head output).pipe⟩ := by
  rw [startProgram, PipeCommunication.start, Program.run]
  split_ifs with hw
  · rfl
  · rfl

theorem run_sendResponseProgram {c : PipeCommunication} {res : Response} :
    (sendResponseProgram c res).run reads writes input output =
      some ⟨(c.sendResponse res writes.head writes.tail.head output).1, input,
        (c.sendResponse res writes.head writes.tail.head output).2⟩ := by
  rw [sendResponseProgram, PipeCommunication.sendResponse]
  split_ifs with hs
  · exact run_writeFrameProgram
  · rfl

theorem run_readResponseProgram {res : Response} :
    (readResponseProgram res).run reads writes input output =
      (PipeClient.readResponse res reads input).map fun r => ⟨(r.1, r.2.1), r.2.2, output⟩ := by
  rw [readResponseProgram, PipeClient.readResponse, run_readHeaderProgram_bind]
  obtain _ | ⟨_ | ⟨status, dataLength⟩, left⟩ := readHeader reads.head input
  · rfl
  · rfl
  · rw [Option.bind_some]
    simp only
    split_ifs with he hm
    · rfl
    · rfl
    · rw [Program.run_map, run_receiveDataProgram]
      obtain _ | _ | _ := receiveData dataLength reads.tail left
      · rfl
      · rfl
      · rfl

theorem run_sendRequestProgram {c : PipeClient} {req : Request} {res : Response} {pipes : Pipes} :
    (sendRequestProgram c req res).run reads writes pipes.response pipes.request =
      (c.sendRequest req res writes.head writes.tail.head id reads pipes).map fun r =>
        ⟨(r.result, r.res), r.pipes.response, r.pipes.request⟩ := by
  rw [sendRequestProgram, PipeClient.sendRequest]
  split_ifs with hs
  · rw [writeFrameProgram, PipeClient.writeRequest, writeFrame, Program.bind, Program.run]
    cases (Pipe.write writes.head _ pipes.request).written with
    | none => rfl
    | some count =>
      simp only [Program.bind, Program.run]
      cases (Pipe.write writes.tail.head _ _).written with
      | none => rfl
      | some count =>
        rw [Program.bind, run_readResponseProgram, Option.map_map]
        rfl
  · rfl

end

end VpTesting.PipeProcesses

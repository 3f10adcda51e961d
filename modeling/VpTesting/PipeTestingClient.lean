import VpTesting.PipeTestingCommunication

namespace VpTesting.PipeTestingClient

open VpTesting.Types VpTesting.Pipe VpTesting.PipeFrames VpTesting.ReceiveLoop
  VpTesting.PipeTestingCommunication

structure Pipes where
  request : List UInt8 := []
  response : List UInt8 := []

structure PipeClient where
  mStarted : Bool := false

structure Checked where
  result : Bool
  client : PipeClient
  pipe : List UInt8
  bufferWrites : List Nat := []
  bufferReads : List Nat := []

structure Sent where
  result : Bool
  res : Response
  pipes : Pipes

namespace PipeClient

/-- Look for the announcement in the response pipe. `available` is false if its size
cannot be found out. The buffer of six bytes is also written behind the bytes read, and read
up to its first zero. -/
def checkForReady (c : PipeClient) (available : Bool) (o : ReadOutcome) (pipe : List UInt8) :
    Option Checked :=
  if available then
    if pipe.length < 6 then some ⟨false, c, pipe, [], []⟩
    else
      (read o 6 pipe).map fun r =>
        match r.bytes with
        | none => ⟨false, c, r.pipe, [], []⟩
        | some bytes =>
          let message := (bytes ++ [0]).takeWhile (· ≠ 0)
          let writes := List.range (bytes.length + 1)
          let reads := List.range (message.length + 1)
          if message ++ [0] = ready then
            ⟨true, { c with mStarted := true }, r.pipe, writes, reads⟩
          else ⟨false, c, r.pipe, writes, reads⟩
  else some ⟨false, c, pipe, [], []⟩

def writeRequest (req : Request) (header body : WriteOutcome) (pipe : List UInt8) :
    Bool × List UInt8 :=
  writeFrame req.requestCommand req.data req.dataLength header body pipe

/-- Receive a response into `res`; `none` if a read blocks for good. -/
def readResponse (res : Response) (outcomes : Stream' ReadOutcome) (pipe : List UInt8) :
    Option (Bool × Response × List UInt8) :=
  match readHeader outcomes.head pipe with
  | none => none
  | some (none, pipe) => some (false, res, pipe)
  | some (some (status, dataLength), pipe) =>
    let res := { res with data := none, responseStatus := status }
    if status = Status.error.toByte then some (false, res, pipe)
    else if status = Status.malformed.toByte then some (false, res, pipe)
    else
      let res := { res with dataLength }
      match receiveData dataLength outcomes.tail pipe with
      | none => none
      | some (.received data pipe) => some (true, { res with data }, pipe)
      | some (.aborted pipe) =>
        some (false, { responseStatus := Status.error.toByte, data := none, dataLength := 0 }, pipe)

/-- Send a request and wait for the response. Between the two the receiver is at work
on the pipes. -/
def sendRequest (c : PipeClient) (req : Request) (res : Response) (header body : WriteOutcome)
    (receiver : Pipes → Pipes) (outcomes : Stream' ReadOutcome) (pipes : Pipes) : Option Sent :=
  if c.mStarted then
    match writeRequest req header body pipes.request with
    | (false, request) => some ⟨false, res, { pipes with request }⟩
    | (true, request) =>
      let pipes := receiver { pipes with request }
      (readResponse res outcomes pipes.response).map fun r =>
        ⟨r.1, r.2.1, { pipes with response := r.2.2 }⟩
  else some ⟨false, res, pipes⟩

section

variable {res : Response} {outcomes : Stream' ReadOutcome} {p : Payload} {rest : List UInt8}
  {data : Option (List UInt8)} {pipe : List UInt8}

/-- After any status but STATUS_OK no data are looked for. -/
theorem readResponse_failed (ho : Whole outcomes.head) {status : Status} (hs : status ≠ .ok) :
    readResponse res outcomes (frame status.toByte p ++ rest) =
      some (false, { res with data := none, responseStatus := status.toByte },
        p.bytes ++ rest) := by
  simp only [readResponse, readHeader_frame ho]
  cases status with
  | ok => exact absurd rfl hs
  | error => rfl
  | malformed => rfl

theorem readResponse_received (ho : Whole outcomes.head)
    (hd : receiveData p.length outcomes.tail (p.bytes ++ rest) = some (.received data pipe)) :
    readResponse res outcomes (frame Status.ok.toByte p ++ rest) =
      some (true, ⟨Status.ok.toByte, data, p.length⟩, pipe) := by
  simp only [readResponse, readHeader_frame ho, hd]
  rfl

theorem readResponse_aborted (ho : Whole outcomes.head)
    (hd : receiveData p.length outcomes.tail (p.bytes ++ rest) = some (.aborted pipe)) :
    readResponse res outcomes (frame Status.ok.toByte p ++ rest) =
      some (false, ⟨Status.error.toByte, none, 0⟩, pipe) := by
  simp only [readResponse, readHeader_frame ho, hd]
  rfl

end

end PipeClient

end VpTesting.PipeTestingClient

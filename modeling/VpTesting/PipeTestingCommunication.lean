import VpTesting.PipeFrames
import VpTesting.ReceiveLoop

namespace VpTesting.PipeTestingCommunication

open VpTesting.Types VpTesting.Pipe VpTesting.PipeFrames VpTesting.ReceiveLoop

theorem whole_arrival (chunks : Stream' Nat) : Whole (arrival chunks).head :=
  ⟨4, rfl, Nat.le_refl 4⟩

/-- The string `ready` with its terminating zero. -/
def ready : List UInt8 := [114, 101, 97, 100, 121, 0]

structure PipeCommunication where
  mStarted : Bool := false
  mCurrentReq : Request := {}

structure Received where
  result : Bool
  communication : PipeCommunication
  pipe : List UInt8

namespace PipeCommunication

/-- Announce readiness in the response pipe. -/
def start (c : PipeCommunication) (o : WriteOutcome) (pipe : List UInt8) : Received :=
  let r := write o ready pipe
  if r.written = some ready.length then ⟨true, { c with mStarted := true }, r.pipe⟩
  else ⟨false, c, r.pipe⟩

def sendResponse (c : PipeCommunication) (res : Response) (header body : WriteOutcome)
    (pipe : List UInt8) : Bool × List UInt8 :=
  if c.mStarted then writeFrame res.responseStatus res.data res.dataLength header body pipe
  else (false, pipe)

/-- Receive a request from the request pipe; `none` if a read blocks for good. -/
def receiveRequest (c : PipeCommunication) (outcomes : Stream' ReadOutcome) (pipe : List UInt8) :
    Option Received :=
  if c.mStarted then
    match readHeader outcomes.head pipe with
    | none => none
    | some (none, pipe) => some ⟨false, c, pipe⟩
    | some (some (command, dataLength), pipe) =>
      let req : Request := { requestCommand := command, data := none, dataLength }
      match receiveData dataLength outcomes.tail pipe with
      | none => none
      | some (.received data pipe) => some ⟨true, { c with mCurrentReq := { req with data } }, pipe⟩
      | some (.aborted pipe) =>
        some ⟨false, { c with mCurrentReq := { req with dataLength := 0 } }, pipe⟩
  else some ⟨false, c, pipe⟩

end PipeCommunication

end VpTesting.PipeTestingCommunication

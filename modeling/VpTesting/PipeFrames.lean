import VpTesting.Pipe
import VpTesting.TestingCommunication

namespace VpTesting.PipeFrames

open VpTesting.ByteMemory VpTesting.Types VpTesting.TestingCommunication VpTesting.Pipe

/-- Write a header of one byte and the data length, and then the data. Neither a
short count nor a missing second write is noticed. -/
def writeFrame (first : UInt8) (data : Option (List UInt8)) (dataLength : UInt32)
    (header body : WriteOutcome) (pipe : List UInt8) : Bool × List UInt8 :=
  let buffer := int32ToBytes dataLength.toInt32 [first, 0, 0, 0, 0] 1
  let r := write header buffer pipe
  match r.written with
  | none => (false, r.pipe)
  | some _ =>
    let r := write body ((data.getD []).take dataLength.toNat) r.pipe
    match r.written with
    | none => (false, r.pipe)
    | some _ => (true, r.pipe)

/-- Read a header: its first byte and the data length, or `none` if the read does
not return all of it. -/
def readHeader (o : ReadOutcome) (pipe : List UInt8) :
    Option (Option (UInt8 × UInt32) × List UInt8) :=
  (read o 5 pipe).map fun r =>
    match r.bytes with
    | none => (none, r.pipe)
    | some header =>
      if header.length ≠ 5 then (none, r.pipe)
      else
        let buffer := view header (fun _ => 0)
        (some (buffer 0, (bytesToInt32 buffer 1).toUInt32), r.pipe)

/-- The read of a header returns all of it. -/
def Whole (o : ReadOutcome) : Prop := ∃ more, o = .data more ∧ 4 ≤ more

theorem readHeader_whole {o : ReadOutcome} (ho : Whole o) (pipe : List UInt8) :
    readHeader o pipe = readHeader (.data 4) pipe := by
  obtain ⟨more, rfl, hmore⟩ := ho
  have hmin : min (more + 1) 5 = min (4 + 1) 5 := by omega
  rw [readHeader, readHeader, Pipe.read, Pipe.read, hmin]

/-- A frame as it is meant to be in the pipe. -/
def frame (first : UInt8) (p : Payload) : List UInt8 := first :: be32 p.length ++ p.bytes

theorem writeFrame_full (first : UInt8) (p : Payload) (pipe : List UInt8) :
    writeFrame first p.pointer p.length .full .full pipe = (true, pipe ++ frame first p) := by
  have hb := int32ToBytes_append p.length.toInt32 [first] [0, 0, 0, 0] [] rfl
  simp only [List.append_nil, List.singleton_append, List.length_singleton,
    UInt32.toUInt32_toInt32] at hb
  simp only [writeFrame, write, hb, Payload.getD_pointer, Payload.toNat_length, List.take_length,
    frame, List.append_assoc]

theorem readHeader_frame {o : ReadOutcome} (ho : Whole o) (first : UInt8) (p : Payload)
    (rest : List UInt8) :
    readHeader o (frame first p ++ rest) = some (some (first, p.length), p.bytes ++ rest) := by
  have hl : (first :: be32 p.length).length = 5 := by simp
  have hr := read_exact (p.bytes ++ rest) (List.cons_ne_nil first (be32 p.length))
    (Nat.le_of_eq hl)
  have h1 := bytesToInt32_be32 [first] [] p.length (fun _ => 0)
  simp only [List.append_nil, List.singleton_append, List.length_singleton] at h1
  rw [hl] at hr
  rw [readHeader_whole ho, readHeader, frame, List.append_assoc, hr]
  simp [h1, view]

end VpTesting.PipeFrames

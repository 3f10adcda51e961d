import VpTesting.PipeTestingClient

namespace VpTesting.PipeRequests

open VpTesting.Types VpTesting.PipeFrames VpTesting.ReceiveLoop VpTesting.PipeTestingCommunication
  VpTesting.PipeTestingClient

/-- A request as a client sends it: a command with its data. -/
structure SentRequest where
  command : Command
  payload : Payload

def SentRequest.request (r : SentRequest) : Request := Request.of r.command.toByte r.payload

/-- The request pipe after the requests have been written to it. -/
def written (reqs : List SentRequest) (pipe : List UInt8) : List UInt8 :=
  reqs.foldl (fun pipe r => (PipeClient.writeRequest r.request .full .full pipe).2) pipe

/-- Successive calls, one for each stream of chunks: what they return, with the
current request after each, and what they leave in the pipe. -/
def receiveAll (c : PipeCommunication) :
    List (Stream' Nat) → List UInt8 → Option (List (Bool × Request) × List UInt8)
  | [], pipe => some ([], pipe)
  | chunks :: calls, pipe =>
    match c.receiveRequest (arrival chunks) pipe with
    | none => none
    | some r =>
      (receiveAll r.communication calls r.pipe).map fun rest =>
        ((r.result, r.communication.mCurrentReq) :: rest.1, rest.2)

def SentRequest.frame (r : SentRequest) : List UInt8 := PipeFrames.frame r.command.toByte r.payload

theorem written_eq (reqs : List SentRequest) (pipe : List UInt8) :
    written reqs pipe = pipe ++ reqs.flatMap SentRequest.frame := by
  induction reqs generalizing pipe with
  | nil => simp [written]
  | cons r reqs ih =>
    have hw : (PipeClient.writeRequest r.request .full .full pipe).2 = pipe ++ r.frame := by
      rw [PipeClient.writeRequest]
      exact congrArg Prod.snd (writeFrame_full r.command.toByte r.payload pipe)
    rw [written, List.foldl_cons, hw]
    exact (ih _).trans (by simp)

variable (current : Request) (chunks : Stream' Nat) (r : SentRequest) (rest : List UInt8)

/-- A request whose payload is not a single byte is received as it was sent, and its
frame consumed to the last byte. -/
theorem receiveRequest_frame (hr : r.payload.bytes.length ≠ 1) :
    PipeCommunication.receiveRequest { mStarted := true, mCurrentReq := current } (arrival chunks)
      (r.frame ++ rest) =
      some ⟨true, { mStarted := true, mCurrentReq := r.request }, rest⟩ := by
  have hh := readHeader_frame (whole_arrival chunks) r.command.toByte r.payload rest
  have hd : receiveData r.payload.length (arrival chunks).tail (r.payload.bytes ++ rest) = _ :=
    receiveData_payload chunks r.payload rest hr
  simp only [PipeCommunication.receiveRequest, if_true, SentRequest.frame, hh, hd]
  rfl

/-- A single byte of payload is not looked for. -/
theorem receiveRequest_frame_one (hr : r.payload.bytes.length = 1) :
    PipeCommunication.receiveRequest { mStarted := true, mCurrentReq := current } (arrival chunks)
      (r.frame ++ rest) =
      some ⟨true, { mStarted := true, mCurrentReq := ⟨r.command.toByte, none, r.payload.length⟩ },
        r.payload.bytes ++ rest⟩ := by
  have hh := readHeader_frame (whole_arrival chunks) r.command.toByte r.payload rest
  have hd := receiveData_one (arrival chunks).tail r.payload rest hr
  simp only [PipeCommunication.receiveRequest, if_true, SentRequest.frame, hh, hd]

/-- All requests are delivered, in their order, and nothing else is in the pipe. -/
def Delivered (current : Request) (reqs : List (SentRequest × Stream' Nat)) : Prop :=
  receiveAll { mStarted := true, mCurrentReq := current } (reqs.map Prod.snd)
    (written (reqs.map Prod.fst) []) = some (reqs.map (fun r => (true, r.1.request)), [])

theorem delivered_cons_iff (reqs : List (SentRequest × Stream' Nat))
    (hr : r.payload.bytes.length ≠ 1) :
    Delivered current ((r, chunks) :: reqs) ↔ Delivered r.request reqs := by
  simp only [Delivered, List.map_cons, written_eq, List.nil_append, List.flatMap_cons, receiveAll,
    receiveRequest_frame current chunks r _ hr]
  constructor
  · intro h
    obtain ⟨rest, hrest, he⟩ := Option.map_eq_some_iff.mp h
    obtain ⟨hd, hp⟩ := Prod.mk.inj he
    rw [hrest, ← (List.cons.inj hd).2, ← hp]
  · intro h
    rw [h]
    rfl

/-- The request with a single byte is delivered without it. -/
theorem not_delivered_cons (reqs : List (SentRequest × Stream' Nat))
    (hr : r.payload.bytes.length = 1) : ¬Delivered current ((r, chunks) :: reqs) := by
  simp only [Delivered, List.map_cons, written_eq, List.nil_append, List.flatMap_cons, receiveAll,
    receiveRequest_frame_one current chunks r _ hr]
  intro h
  obtain ⟨rest, -, he⟩ := Option.map_eq_some_iff.mp h
  have hd := (List.cons.inj (Prod.mk.inj he).1).1
  have hne : r.payload.bytes ≠ [] := List.ne_nil_of_length_eq_add_one hr
  have hdata := congrArg Request.data (Prod.mk.inj hd).2
  rw [SentRequest.request, Request.of, Payload.pointer_eq_some hne] at hdata
  cases hdata

/-- Requests are delivered as they were sent if and only if none has a payload of one byte. -/
theorem delivered_iff (current : Request) (reqs : List (SentRequest × Stream' Nat)) :
    Delivered current reqs ↔ ∀ r ∈ reqs, r.1.payload.bytes.length ≠ 1 := by
  induction reqs generalizing current with
  | nil => simp [Delivered, receiveAll, written]
  | cons r reqs ih =>
    obtain ⟨r, chunks⟩ := r
    rw [List.forall_mem_cons]
    by_cases hr : r.payload.bytes.length = 1
    · have hn := not_delivered_cons current chunks r reqs hr
      simp [hn, hr]
    · rw [delivered_cons_iff current chunks r reqs hr, ih]
      simp [hr]

/-- KILL with its one byte of data. -/
def killRequest : SentRequest := ⟨.kill, ⟨[1], by decide⟩⟩

theorem kill_not_delivered : ¬Delivered {} [(killRequest, Stream'.const 0)] :=
  not_delivered_cons {} (Stream'.const 0) killRequest [] rfl

end VpTesting.PipeRequests

import Mathlib.Data.Stream.Init
import Mathlib.Logic.Function.Basic
import VpTesting.HandlerSimulation
import VpTesting.MmioCommands
import VpTesting.SharedInput

namespace VpTesting.SharedRuns

open VpTesting.ByteMemory VpTesting.CStrings VpTesting.Types VpTesting.TestingCommunication
  VpTesting.HandlerCalls VpTesting.HandleRequest VpTesting.HandlerSimulation
  VpTesting.SharedMemory VpTesting.MmioCommands

variable {α σ : Type}

/-- The handlers of a receiver class in its process, with `handle_do_run_shm` as it is
inherited. -/
def inherited (h : Handlers σ) (segments : Int32 → Segment) : Handlers (Process σ)
  | .handleDoRunShm startBreakpoint endBreakpoint mmioAddress mmioLength shmId offset
      stopAfterStringTermination registerName, p =>
    let r := SharedMemory.handleDoRunShm h ⟨startBreakpoint, endBreakpoint, mmioAddress,
      mmioLength, segments shmId, offset, stopAfterStringTermination, registerName⟩ p
    ⟨r.status, (), r.process⟩
  | c, p =>
    let r := h c p.receiver
    ⟨r.status, r.out, { p with receiver := r.state }⟩

/-- The arguments of a run, but for its data. -/
structure Run where
  startBreakpoint : ShortName
  endBreakpoint : ShortName
  address : UInt64
  length : UInt32
  registerName : ShortName
  shmId : Int32
  offset : UInt32
  stopAfterStringTermination : Bool
  named : 0 < startBreakpoint.1.length + endBreakpoint.1.length + registerName.1.length

/-- Up to the first zero, with it. -/
def upToZero : List UInt8 → List UInt8
  | [] => []
  | b :: bytes => if b = 0 then [b] else b :: upToZero bytes

namespace Run

variable (r : Run)

/-- The data of the run in a segment. -/
def data (shm : Segment) : List UInt8 :=
  let behind := slice shm.memory r.offset.toNat (shm.shmSegsz.toNat - r.offset.toNat)
  if r.stopAfterStringTermination then upToZero behind else behind

def names : List UInt8 := r.startBreakpoint.1 ++ r.endBreakpoint.1 ++ r.registerName.1

def nameLengths : List UInt8 :=
  [UInt8.ofNat r.startBreakpoint.1.length, UInt8.ofNat r.endBreakpoint.1.length,
    UInt8.ofNat r.registerName.1.length]

/-- The payload of DO_RUN_SHM. -/
def shmLayout : List UInt8 :=
  be64 r.address ++ be32 r.length ++ be32 r.shmId.toUInt32 ++ be32 r.offset ++
    [if r.stopAfterStringTermination then 1 else 0] ++ r.nameLengths ++ r.names

/-- The payload of DO_RUN with those data. -/
def layout (data : List UInt8) : List UInt8 :=
  be64 r.address ++ be32 r.length ++ be32 (UInt32.ofNat data.length) ++ r.nameLengths ++
    r.names ++ data

theorem length_names : r.names.length = r.startBreakpoint.1.length +
    r.endBreakpoint.1.length + r.registerName.1.length := by
  rw [names, List.length_append, List.length_append]

theorem length_shmLayout : r.shmLayout.length = 24 + r.names.length := by
  simp only [shmLayout, nameLengths, List.length_append, length_be64, length_be32,
    List.length_cons, List.length_nil]

theorem shmLayout_lt : r.shmLayout.length < 2 ^ 32 := by
  have hs := r.startBreakpoint.2
  have he := r.endBreakpoint.2
  have hn := r.registerName.2
  rw [length_shmLayout, length_names]
  omega

def shmRequest : Request := Request.of Command.doRunShm.toByte ⟨r.shmLayout, r.shmLayout_lt⟩

end Run

theorem slice_succ (m : Nat → UInt8) (start n : Nat) :
    slice m start (n + 1) = m start :: slice m (start + 1) n := by
  rw [Nat.add_comm, slice_add]
  rfl

/-- What the search finds is the part up to the first zero. -/
theorem slice_strnlen (m : Nat → UInt8) (start n : Nat) :
    slice m start (strnlen m start n + 1) = upToZero (slice m start (n + 1)) := by
  induction n generalizing start with
  | zero =>
    rw [strnlen, slice_succ, slice_zero, upToZero, upToZero, ite_self]
  | succ n ih =>
    rw [strnlen, slice_succ m start (n + 1), upToZero]
    split_ifs with hz
    · rfl
    · rw [slice_succ, ih]

section

variable (r : Run) (beyond : Nat → UInt8)

/-- The integers of a DO_RUN_SHM payload are decoded as they were written. -/
theorem shmLayout_integers :
    (bytesToInt64 (view r.shmLayout beyond) 0).toUInt64 = r.address ∧
      (bytesToInt32 (view r.shmLayout beyond) 8).toUInt32 = r.length ∧
      (bytesToInt32 (view r.shmLayout beyond) 12).toUInt32 = r.shmId.toUInt32 ∧
      (bytesToInt32 (view r.shmLayout beyond) 16).toUInt32 = r.offset := by
  let rest := [if r.stopAfterStringTermination then 1 else 0] ++ r.nameLengths ++ r.names
  have h0 := bytesToInt64_be64 []
    (be32 r.length ++ be32 r.shmId.toUInt32 ++ be32 r.offset ++ rest) r.address beyond
  have h8 := bytesToInt32_be32 (be64 r.address)
    (be32 r.shmId.toUInt32 ++ be32 r.offset ++ rest) r.length beyond
  have h12 := bytesToInt32_be32 (be64 r.address ++ be32 r.length) (be32 r.offset ++ rest)
    r.shmId.toUInt32 beyond
  have h16 := bytesToInt32_be32 (be64 r.address ++ be32 r.length ++ be32 r.shmId.toUInt32) rest
    r.offset beyond
  simp only [rest, List.nil_append, List.length_nil, List.append_assoc, length_be64, length_be32,
    List.length_append, Nat.reduceAdd] at h0 h8 h12 h16
  simp only [Run.shmLayout, List.append_assoc]
  exact ⟨h0, h8, h12, h16⟩

/-- So are its bytes. -/
theorem shmLayout_bytes :
    view r.shmLayout beyond 20 = (if r.stopAfterStringTermination then 1 else 0) ∧
      (view r.shmLayout beyond 21).toNat = r.startBreakpoint.1.length ∧
      (view r.shmLayout beyond 22).toNat = r.endBreakpoint.1.length ∧
      (view r.shmLayout beyond 23).toNat = r.registerName.1.length := by
  let pre := be64 r.address ++ be32 r.length ++ be32 r.shmId.toUInt32 ++ be32 r.offset
  let flag : UInt8 := if r.stopAfterStringTermination then 1 else 0
  have hpre : pre.length = 20 := by simp [pre]
  have hl : r.shmLayout = pre ++ flag :: UInt8.ofNat r.startBreakpoint.1.length ::
      UInt8.ofNat r.endBreakpoint.1.length :: UInt8.ofNat r.registerName.1.length :: r.names := by
    simp [Run.shmLayout, Run.nameLengths, pre, flag]
  have hbyte (k : ShortName) : (UInt8.ofNat k.1.length).toNat = k.1.length := by
    rw [UInt8.toNat_ofNat', Nat.mod_eq_of_lt k.2]
  have hview (k : Nat) : view r.shmLayout beyond (20 + k) =
      view (flag :: UInt8.ofNat r.startBreakpoint.1.length ::
        UInt8.ofNat r.endBreakpoint.1.length :: UInt8.ofNat r.registerName.1.length :: r.names)
        (fun i => beyond (20 + i)) k := by
    rw [hl, view, List.getElem?_append_right (by omega), hpre, Nat.add_sub_cancel_left]
    rfl
  refine ⟨hview 0, ?_, ?_, ?_⟩
  · rw [hview 1]
    exact hbyte r.startBreakpoint
  · rw [hview 2]
    exact hbyte r.endBreakpoint
  · rw [hview 3]
    exact hbyte r.registerName

/-- And its names. -/
theorem shmLayout_names :
    slice (view r.shmLayout beyond) 24 r.startBreakpoint.1.length = r.startBreakpoint.1 ∧
      slice (view r.shmLayout beyond) (r.startBreakpoint.1.length + 24)
        r.endBreakpoint.1.length = r.endBreakpoint.1 ∧
      slice (view r.shmLayout beyond)
        (r.startBreakpoint.1.length + r.endBreakpoint.1.length + 24) r.registerName.1.length =
          r.registerName.1 := by
  let pre := be64 r.address ++ be32 r.length ++ be32 r.shmId.toUInt32 ++ be32 r.offset ++
    [if r.stopAfterStringTermination then 1 else 0] ++ r.nameLengths
  have hpre : pre.length = 24 := by simp [pre, Run.nameLengths]
  have hs := slice_view_append pre r.startBreakpoint.1 (r.endBreakpoint.1 ++ r.registerName.1)
    beyond
  have he := slice_view_append (pre ++ r.startBreakpoint.1) r.endBreakpoint.1 r.registerName.1
    beyond
  have hr := slice_view_append (pre ++ r.startBreakpoint.1 ++ r.endBreakpoint.1)
    r.registerName.1 [] beyond
  simp only [List.append_assoc, List.length_append, hpre, List.append_nil] at hs he hr
  rw [Nat.add_comm] at he
  rw [← Nat.add_assoc, Nat.add_comm 24, Nat.add_right_comm] at hr
  have hl : r.shmLayout =
      pre ++ (r.startBreakpoint.1 ++ (r.endBreakpoint.1 ++ r.registerName.1)) := by
    simp [Run.shmLayout, Run.names, pre]
  rw [hl]
  exact ⟨hs, he, hr⟩

end

section

variable {τ : Type} (r : Run)

def Run.shmCall : HandlerCall :=
  .handleDoRunShm r.startBreakpoint.1 r.endBreakpoint.1 r.address r.length.toNat r.shmId r.offset
    r.stopAfterStringTermination r.registerName.1

def Run.call (data : List UInt8) : HandlerCall :=
  .handleDoRun r.startBreakpoint.1 r.endBreakpoint.1 r.address r.length.toNat data.length data
    r.registerName.1

/-- A request that leads to one call, of a handler that produces no data. -/
def Leads (req : Request) (c : HandlerCall) : Prop :=
  ∀ (τ : Type) (h : Handlers τ) (g : Indeterminate) (v : τ),
    ((handleRequest h g req).run { state := v }).2.state = (h c v).state ∧
      ((handleRequest h g req).run { state := v }).2.res =
        { responseStatus := (h c v).status.toByte, data := none, dataLength := 0 }

theorem leads_shmRequest : Leads r.shmRequest r.shmCall := by
  intro τ h g v
  obtain ⟨h0, h8, h12, h16⟩ := shmLayout_integers r g.beyond
  obtain ⟨h20, h21, h22, h23⟩ := shmLayout_bytes r g.beyond
  obtain ⟨hs, he, hn⟩ := shmLayout_names r g.beyond
  have hlen := r.length_shmLayout
  rw [Run.length_names] at hlen
  have hmin : ¬r.shmLayout.length < 25 := by
    have hpos := r.named
    omega
  have hexact : 24 + r.startBreakpoint.1.length + r.endBreakpoint.1.length +
      r.registerName.1.length = r.shmLayout.length := by omega
  have hstop : ((if r.stopAfterStringTermination then 1 else 0 : UInt8) != 0) =
      r.stopAfterStringTermination := by
    cases r.stopAfterStringTermination with
    | true => rfl
    | false => rfl
  simp [Run.shmRequest, Run.shmCall, handleRequest, hmin, hexact, h0, h8, h12, h16, h20, h21, h22,
    h23, hs, he, hn, hstop]

theorem length_layout (data : List UInt8) :
    (r.layout data).length = 19 + r.names.length + data.length := by
  simp only [Run.layout, Run.nameLengths, List.length_append, length_be64, length_be32,
    List.length_cons, List.length_nil]

theorem leads_layout {data : List UInt8} (hlt : (r.layout data).length < 2 ^ 32) :
    Leads (Request.of Command.doRun.toByte ⟨r.layout data, hlt⟩) (r.call data) := by
  intro τ h g v
  have hlen := length_layout r data
  rw [Run.length_names] at hlen
  have hpos := r.named
  have hs : slice (view (r.layout data) g.beyond) 0 (19 + r.startBreakpoint.1.length +
      r.endBreakpoint.1.length + r.registerName.1.length + data.length) =
      be64 r.address ++ be32 r.length ++ be32 (UInt32.ofNat data.length) ++
        [UInt8.ofNat r.startBreakpoint.1.length, UInt8.ofNat r.endBreakpoint.1.length,
          UInt8.ofNat r.registerName.1.length] ++
        r.startBreakpoint.1 ++ r.endBreakpoint.1 ++ r.registerName.1 ++ data := by
    have hn : 19 + r.startBreakpoint.1.length + r.endBreakpoint.1.length +
        r.registerName.1.length + data.length = (r.layout data).length := by omega
    rw [hn, slice_view_all, Run.layout, Run.names]
    simp only [List.append_assoc]
    rfl
  obtain ⟨hstart, hlength, hcall⟩ := DoRun.doRunCall_of_slice (view (r.layout data) g.beyond)
    r.address r.length r.startBreakpoint.1 r.endBreakpoint.1 r.registerName.1 data
    r.startBreakpoint.2 r.endBreakpoint.2 r.registerName.2 (by omega) hs
  have hsum : (r.layout data).length = (UInt32.ofNat (DoRun.dataStart
      (view (r.layout data) g.beyond)) +
        DoRun.dataLength (view (r.layout data) g.beyond)).toNat := by
    rw [hstart, hlength, UInt32.toNat_add, UInt32.toNat_ofNat', UInt32.toNat_ofNat']
    omega
  have hmin : ¬(r.layout data).length < 20 := by omega
  rw [DoRun.run_doRun, if_neg hmin, if_neg (not_not.mpr hsum), hcall]
  exact ⟨rfl, rfl⟩

end

/-- The segment can be read from the offset on, and DO_RUN can carry what is there. -/
structure Readable (r : Run) (shm : Segment) : Prop where
  attached : shm.shmat.isSome
  reported : shm.shmctl = true
  inside : r.offset.toNat < shm.shmSegsz.toNat
  fits : (r.layout (r.data shm)).length < 2 ^ 32

def Run.request {r : Run} {shm : Segment} (hr : Readable r shm) : Request :=
  Request.of Command.doRun.toByte ⟨r.layout (r.data shm), hr.fits⟩

/-- Runs with the data that the client has put in a segment before each, requests between them,
and what becomes of them by the responses. -/
inductive Campaign (α : Type)
  | finished (value : α)
  | ask (req : Request) (hreq : Command.ofByte req.requestCommand ≠ some .doRunShm)
    (next : Response → Campaign α)
  | run (r : Run) (shm : Segment) (hr : Readable r shm) (next : Response → Campaign α)

namespace Campaign

/-- Every run is a DO_RUN_SHM request. What its segment holds is what the client wrote last. -/
def overShm (h : Handlers σ) (segments : Int32 → Segment) (p : Process σ)
    (memory : Stream' Indeterminate) : Campaign α → α × Process σ
  | finished value => (value, p)
  | ask req _ next =>
    let s := ((handleRequest (inherited h segments) memory.head req).run { state := p }).2
    (next s.res).overShm h segments s.state memory.tail
  | run r shm _ next =>
    let segments := Function.update segments r.shmId shm
    let s := ((handleRequest (inherited h segments) memory.head r.shmRequest).run
      { state := p }).2
    (next s.res).overShm h segments s.state memory.tail

/-- Every run is a DO_RUN request with its data. -/
def overRequests (h : Handlers σ) (v : σ) (memory : Stream' Indeterminate) :
    Campaign α → α × σ
  | finished value => (value, v)
  | ask req _ next =>
    let s := ((handleRequest h memory.head req).run { state := v }).2
    (next s.res).overRequests h s.state memory.tail
  | run _ _ hr next =>
    let s := ((handleRequest h memory.head (Run.request hr)).run { state := v }).2
    (next s.res).overRequests h s.state memory.tail

end Campaign

section

variable {r : Run} {shm : Segment}

/-- The arguments of `handle_do_run_shm`, with the segment. -/
def Run.arguments (r : Run) (shm : Segment) : RunArguments where
  startBreakpoint := r.startBreakpoint.1
  endBreakpoint := r.endBreakpoint.1
  mmioAddress := r.address
  mmioLength := r.length.toNat
  shm := shm
  offset := r.offset
  stopAfterStringTermination := r.stopAfterStringTermination
  registerName := r.registerName.1

/-- The slice handed on is the data. -/
theorem slice_dataLength (hi : r.offset.toNat < shm.shmSegsz.toNat) :
    slice shm.memory r.offset.toNat (dataLength (r.arguments shm)).toNat = r.data shm := by
  rw [Run.data]
  by_cases hs : r.stopAfterStringTermination = true
  · have hsucc : shm.shmSegsz.toNat - r.offset.toNat =
        shm.shmSegsz.toNat - r.offset.toNat - 1 + 1 := by omega
    have hl := SharedInput.toNat_dataLength_string (a := r.arguments shm) hs hi
    rw [if_pos hs, hl, hsucc]
    exact slice_strnlen shm.memory r.offset.toNat _
  · have hl := SharedInput.toNat_dataLength_plain (a := r.arguments shm)
      (Bool.eq_false_iff.mpr hs)
    have hb : (sizeBehind shm r.offset).toNat = shm.shmSegsz.toNat - r.offset.toNat :=
      toNat_sizeBehind_of_le (Nat.le_of_lt hi)
    rw [if_neg hs, hl, ← hb]
    rfl

/-- The call of `handle_do_run` is the one that the DO_RUN request leads to. -/
theorem runCall_eq (hi : r.offset.toNat < shm.shmSegsz.toNat) :
    runCall (r.arguments shm) (dataLength (r.arguments shm)).toNat = r.call (r.data shm) := by
  have hd := slice_dataLength hi
  have hn := congrArg List.length hd
  rw [length_slice] at hn
  rw [Run.call, ← hd, length_slice]
  rfl

theorem receiver_detach (p : Process σ) (address : Nat) (shmdt : Bool) :
    (p.detach address shmdt).receiver = p.receiver := by
  cases shmdt with
  | true => rfl
  | false => rfl

/-- The receiver in its process does what it does alone, but for the requests that are about
shared memory. -/
theorem simulates_inherited (h : Handlers σ) (segments : Int32 → Segment) {k : Command}
    (hk : k ≠ .doRunShm) :
    Simulates (fun (p : Process σ) v => p.receiver = v) (inherited h segments) h k := by
  rintro c hc p _ rfl
  cases c
  case handleDoRunShm => exact absurd hc.symm hk
  all_goals exact ⟨rfl, rfl, rfl⟩

theorem inherited_shmCall (h : Handlers σ) (hr : Readable r shm) {segments : Int32 → Segment}
    (hs : segments r.shmId = shm) (p : Process σ) :
    (inherited h segments r.shmCall p).status = (h (r.call (r.data shm)) p.receiver).status ∧
      (inherited h segments r.shmCall p).state.receiver =
        (h (r.call (r.data shm)) p.receiver).state := by
  obtain ⟨mmioData, ha⟩ := Option.isSome_iff_exists.mp hr.attached
  have hd := handleDoRunShm_reported (a := r.arguments shm) (h := h) (p := p) ha hr.reported
  have he : inherited h segments r.shmCall p =
      ⟨(SharedMemory.handleDoRunShm h (r.arguments (segments r.shmId)) p).status, (),
        (SharedMemory.handleDoRunShm h (r.arguments (segments r.shmId)) p).process⟩ := rfl
  rw [he, hs, hd, runCall_eq hr.inside]
  exact ⟨rfl, receiver_detach _ _ _⟩

end

/-- A campaign that hands its data over in shared memory comes to the same as one that sends
them: the same result, and the same state of the receiver. -/
theorem overShm_eq_overRequests (h : Handlers σ) (c : Campaign α) (segments : Int32 → Segment)
    (p : Process σ) (memory : Stream' Indeterminate) :
    ((c.overShm h segments p memory).1, (c.overShm h segments p memory).2.receiver) =
      c.overRequests h p.receiver memory := by
  induction c generalizing segments p memory with
  | finished value => rfl
  | ask req hreq next ih =>
    obtain ⟨hres, hstate⟩ := handleRequest_of_simulates req
      (fun k hk => simulates_inherited h segments fun he => hreq (he ▸ hk)) memory.head
      (Eq.refl p.receiver)
    simp only [Campaign.overShm, Campaign.overRequests]
    rw [ih, hres, hstate]
  | run r shm hr next ih =>
    let segments' := Function.update segments r.shmId shm
    obtain ⟨hstate, hres⟩ := leads_shmRequest r _ (inherited h segments') memory.head p
    obtain ⟨hstate', hres'⟩ := leads_layout r hr.fits _ h memory.head p.receiver
    obtain ⟨hstatus, hreceiver⟩ :=
      inherited_shmCall h hr (Function.update_self r.shmId shm segments) p
    rw [hstatus] at hres
    rw [← hstate] at hreceiver
    simp only [Campaign.overShm, Campaign.overRequests, Run.request]
    generalize ((handleRequest (inherited h segments') memory.head r.shmRequest).run
      { state := p }).2 = s at hreceiver hres ⊢
    generalize ((handleRequest h memory.head (Request.of Command.doRun.toByte
      ⟨r.layout (r.data shm), hr.fits⟩)).run { state := p.receiver }).2 = t at hstate' hres' ⊢
    rw [ih s.res segments' s.state memory.tail, hreceiver, ← hstate', hres, hres']

/-- A run that is up to the first zero, with one byte of names. -/
def nameRun : Run where
  startBreakpoint := ⟨[65], by decide⟩
  endBreakpoint := ⟨[], by decide⟩
  address := 0
  length := 1
  registerName := ⟨[], by decide⟩
  shmId := 7
  offset := 1
  stopAfterStringTermination := true
  named := by decide

/-- A segment of four bytes, that reads 66, 67, 0 from the second on. -/
def fourBytes : Segment := ⟨4, view [65, 66, 67, 0] fun _ => 0, some 0, true, true⟩

theorem readable_fourBytes : Readable nameRun fourBytes :=
  ⟨rfl, rfl, by decide, by decide⟩

/-- The run is made twice, the second time after another request. -/
theorem overShm_eq_overRequests_twice :
    let c : Campaign (List Response) :=
      .run nameRun fourBytes readable_fourBytes fun res₁ =>
        .ask (Request.of Command.enableCodeCoverage.toByte .empty) (by decide) fun res₂ =>
          .run nameRun fourBytes readable_fourBytes fun res₃ => .finished [res₁, res₂, res₃]
    let p : Process Unit := ⟨(), [], []⟩
    let memory := Stream'.const Indeterminate.zero
    ((c.overShm (silent Unit) (fun _ => fourBytes) p memory).1,
        (c.overShm (silent Unit) (fun _ => fourBytes) p memory).2.receiver) =
      c.overRequests (silent Unit) () memory :=
  overShm_eq_overRequests (silent Unit) _ _ _ _

end VpTesting.SharedRuns

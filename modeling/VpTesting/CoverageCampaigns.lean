import VpTesting.CoverageExport
import VpTesting.SharedRuns
import VpTesting.TransitionCounts

namespace VpTesting.CoverageCampaigns

open VpTesting.ByteMemory VpTesting.Types VpTesting.TestingCommunication VpTesting.Histogram
  VpTesting.TestingReceiver VpTesting.TestingReceiver.Receiver VpTesting.HandlerCalls
  VpTesting.StateRules VpTesting.HandleRequest VpTesting.SharedMemory VpTesting.CoverageExport
  VpTesting.SharedRuns VpTesting.TransitionCounts

variable {σ : Type}

section

variable {r r' r'' : Receiver}

/-- Receivers that report the same coverage, also after more blocks. -/
structure SameCoverage (r r' : Receiver) : Prop where
  mBbArray : r.mBbArray = r'.mBbArray
  mPrevBbLoc : r.mPrevBbLoc = r'.mPrevBbLoc

theorem SameCoverage.refl (r : Receiver) : SameCoverage r r := ⟨rfl, rfl⟩

theorem SameCoverage.of_eq (h : r = r') : SameCoverage r r' := h ▸ SameCoverage.refl r

theorem SameCoverage.trans (h : SameCoverage r r') (h' : SameCoverage r' r'') :
    SameCoverage r r'' :=
  ⟨h.mBbArray.trans h'.mBbArray, h.mPrevBbLoc.trans h'.mPrevBbLoc⟩

theorem SameCoverage.apply (h : SameCoverage r r') (c : TrackerCall) :
    SameCoverage (c.apply r) (c.apply r') := by
  cases c with
  | setBlock pc =>
    refine ⟨?_, rfl⟩
    rw [TrackerCall.apply, TrackerCall.apply, setBlock, setBlock, h.mBbArray, h.mPrevBbLoc]
  | resetCodeCoverage => exact ⟨rfl, h.mPrevBbLoc⟩

theorem SameCoverage.foldl (h : SameCoverage r r') (calls : List TrackerCall) :
    SameCoverage (calls.foldl TrackerCall.apply r) (calls.foldl TrackerCall.apply r') := by
  induction calls generalizing r r' with
  | nil => exact h
  | cons c calls ih => exact ih (h.apply c)

end

/-- What a handler call does to the coverage, if it executes these blocks. -/
def trackerCalls (executed : HandlerCall → σ → List UInt64) (v : σ) :
    HandlerCall → List TrackerCall
  | .handleResetCodeCoverage => [.resetCodeCoverage]
  | c => (executed c v).map .setBlock

/-- A receiver class that keeps the coverage of its platform: the members of its objects, and the
blocks that a call executes. Coverage is reset by the handler of RESET_CODE_COVERAGE alone. -/
structure Instrumented (σ : Type) where
  handlers : Handlers σ
  receiver : σ → Receiver
  executed : HandlerCall → σ → List UInt64
  covers : ∀ c v, SameCoverage (receiver (handlers c v).state)
    ((trackerCalls executed v c).foldl TrackerCall.apply (receiver v))

namespace Instrumented

variable (I : Instrumented σ)

def served (v : σ) (g : Indeterminate) (req : Request) : Handling σ :=
  ((handleRequest I.handlers g req).run { state := v }).2

/-- Any requests, with what the platform executes and the client writes in between. -/
inductive Reaches (I : Instrumented σ) (v : σ) : List TrackerCall → σ → Prop
  | start : Reaches I v [] v
  | request {w : σ} {calls : List TrackerCall} (hw : Reaches I v calls w) (g : Indeterminate)
    (req : Request) :
    Reaches I v (calls ++ (I.served w g req).calls.flatMap (trackerCalls I.executed w))
      (I.served w g req).state
  | meanwhile {w w' : σ} {calls : List TrackerCall} (hw : Reaches I v calls w)
    (pcs : List UInt64) (h : SameCoverage (I.receiver w') (pcs.foldl setBlock (I.receiver w))) :
    Reaches I v (calls ++ pcs.map .setBlock) w'

/-- A request calls no handler and changes nothing, or it calls one. -/
theorem served_cases (v : σ) (g : Indeterminate) (req : Request) :
    ((I.served v g req).calls = [] ∧ (I.served v g req).state = v) ∨
      ∃ c, (I.served v g req).calls = [c] ∧ (I.served v g req).state = (I.handlers c v).state := by
  let P (s : Handling σ) : Prop := s.calls = [] ∧ s.state = v
  let Q (s : Handling σ) : Prop :=
    P s ∨ ∃ c, s.calls = [c] ∧ s.state = (I.handlers c v).state
  have hcall (s : Handling σ) (c : HandlerCall) (hs : P s) :
      (s.call I.handlers c).calls = [c] ∧
        (s.call I.handlers c).state = (I.handlers c v).state := by
    rw [Handling.call_calls, Handling.call_state, hs.1, hs.2]
    exact ⟨rfl, rfl⟩
  cases hc : Command.ofByte req.requestCommand with
  | none =>
    refine Or.inl ?_
    simp only [served, handleRequest, hc]
    exact ⟨rfl, rfl⟩
  | some c =>
    have ht : Triple P (handleRequest I.handlers g req) (fun _ => Q) := by
      apply triple_handleRequest g req hc
      · exact fun _ _ _ hs => hs
      · exact fun _ hs => Or.inl hs
      · exact fun s c hs => Or.inr ⟨c, hcall s c hs⟩
      · exact fun s c _ _ hs _ => Or.inr ⟨c, hcall s c hs⟩
      · exact fun s c hs => Or.inr ⟨c, hcall s c hs⟩
    exact ht { state := v } ⟨rfl, rfl⟩

theorem covers_served (v : σ) (g : Indeterminate) (req : Request) :
    SameCoverage (I.receiver (I.served v g req).state)
      (((I.served v g req).calls.flatMap (trackerCalls I.executed v)).foldl TrackerCall.apply
        (I.receiver v)) := by
  obtain ⟨hcalls, hstate⟩ | ⟨c, hcalls, hstate⟩ := I.served_cases v g req
  · rw [hcalls, hstate]
    exact SameCoverage.refl _
  · rw [hcalls, hstate, List.flatMap_singleton]
    exact I.covers c v

theorem foldl_setBlock (r : Receiver) (pcs : List UInt64) :
    (pcs.map TrackerCall.setBlock).foldl TrackerCall.apply r = pcs.foldl setBlock r := by
  rw [List.foldl_map]
  rfl

variable {I} {v w : σ} {calls : List TrackerCall}

/-- The coverage at any time is that of the calls so far. -/
theorem Reaches.covers (hw : Reaches I v calls w) :
    SameCoverage (I.receiver w) (calls.foldl TrackerCall.apply (I.receiver v)) := by
  induction hw with
  | start => exact SameCoverage.refl _
  | request hw g req ih =>
    rw [List.foldl_append]
    exact (I.covers_served _ g req).trans (ih.foldl _)
  | meanwhile hw pcs h ih =>
    rw [List.foldl_append]
    have hf := ih.foldl (pcs.map .setBlock)
    rw [foldl_setBlock] at hf
    exact h.trans hf

end Instrumented

/-- The process of a receiver, and the segments that it shares with its client. -/
structure World (σ : Type) where
  process : Process σ
  segments : Int32 → Segment

namespace Instrumented

section

variable (I : Instrumented σ)

/-- The handlers of the class, with the two that work on shared memory as they are inherited. -/
def sharingHandlers : Handlers (World σ)
  | .handleDoRunShm startBreakpoint endBreakpoint mmioAddress mmioLength shmId offset
      stopAfterStringTermination registerName, w =>
    let r := SharedMemory.handleDoRunShm I.handlers ⟨startBreakpoint, endBreakpoint, mmioAddress,
      mmioLength, w.segments shmId, offset, stopAfterStringTermination, registerName⟩ w.process
    ⟨r.status, (), { w with process := r.process }⟩
  | .handleGetCodeCoverageShm shmId offset, w =>
    let r := SharedMemory.handleGetCodeCoverageShm (I.receiver w.process.receiver).mBbArray
      (w.segments shmId) offset w.process
    ⟨r.status, (), ⟨r.process, Function.update w.segments shmId
      { w.segments shmId with memory := r.memory.memory }⟩⟩
  | c, w =>
    let r := I.handlers c w.process.receiver
    ⟨r.status, r.out, { w with process := { w.process with receiver := r.state } }⟩

/-- A run from shared memory executes what its call of `handle_do_run` does. -/
def sharingExecuted : HandlerCall → World σ → List UInt64
  | .handleDoRunShm startBreakpoint endBreakpoint mmioAddress mmioLength shmId offset
      stopAfterStringTermination registerName, w =>
    let r := SharedMemory.handleDoRunShm I.handlers ⟨startBreakpoint, endBreakpoint, mmioAddress,
      mmioLength, w.segments shmId, offset, stopAfterStringTermination, registerName⟩ w.process
    r.calls.flatMap fun c => I.executed c w.process.receiver
  | .handleGetCodeCoverageShm .., _ => []
  | c, w => I.executed c w.process.receiver

variable (a : RunArguments) (p : Process σ)

theorem covers_doRunShm :
    SameCoverage (I.receiver (SharedMemory.handleDoRunShm I.handlers a p).process.receiver)
      ((((SharedMemory.handleDoRunShm I.handlers a p).calls.flatMap fun c =>
        I.executed c p.receiver).map TrackerCall.setBlock).foldl TrackerCall.apply
          (I.receiver p.receiver)) := by
  cases ha : a.shm.shmat with
  | none =>
    rw [handleDoRunShm_unattached ha]
    exact SameCoverage.refl _
  | some mmioData =>
    cases hc : a.shm.shmctl with
    | false =>
      rw [handleDoRunShm_unreported ha hc]
      exact SameCoverage.refl _
    | true =>
      rw [handleDoRunShm_reported ha hc]
      simp only [receiver_detach, List.flatMap_singleton]
      exact I.covers (runCall a (dataLength a).toNat) p.receiver

theorem receiver_handleGetCodeCoverageShm (mBbArray : Fin mapSize → UInt8) (shm : Segment)
    (offset : UInt32) :
    (SharedMemory.handleGetCodeCoverageShm mBbArray shm offset p).process.receiver =
      p.receiver := by
  cases ha : shm.shmat with
  | none => rw [handleGetCodeCoverageShm_unattached ha]
  | some shmAddr =>
    by_cases hc : shm.shmctl = false ∨ (sizeBehind shm offset).toNat < mapSize
    · rw [handleGetCodeCoverageShm_refused ha hc]
      rfl
    · obtain ⟨hctl, hsize⟩ := not_or.mp hc
      rw [handleGetCodeCoverageShm_copied ha (Bool.eq_true_of_not_eq_false hctl)
        (Nat.not_lt.mp hsize), receiver_detach]
      rfl

theorem covers_sharing (c : HandlerCall) (w : World σ) :
    SameCoverage (I.receiver (I.sharingHandlers c w).state.process.receiver)
      ((trackerCalls I.sharingExecuted w c).foldl TrackerCall.apply
        (I.receiver w.process.receiver)) := by
  cases c
  case handleDoRunShm => exact I.covers_doRunShm _ w.process
  case handleGetCodeCoverageShm =>
    exact SameCoverage.of_eq (congrArg I.receiver (receiver_handleGetCodeCoverageShm _ _ _ _))
  all_goals exact I.covers _ w.process.receiver

/-- The class in its process, with the segments. -/
def sharing : Instrumented (World σ) where
  handlers := I.sharingHandlers
  receiver w := I.receiver w.process.receiver
  executed := I.sharingExecuted
  covers := I.covers_sharing

end

section

variable (mBbArray : Fin mapSize → UInt8) (p : Process σ) {shm : Segment} {offset : UInt32}

/-- The export succeeds if and only if every call does and the map fits. It is then in its place. -/
theorem export_iff (hin : offset.toNat ≤ shm.shmSegsz.toNat) :
    let r := SharedMemory.handleGetCodeCoverageShm mBbArray shm offset p
    (r.status = .ok ↔ shm.shmat.isSome ∧ shm.shmctl = true ∧ shm.shmdt = true ∧
        offset.toNat + mapSize ≤ shm.shmSegsz.toNat) ∧
      (r.status = .ok → r.memory.memory = exported mBbArray offset.toNat shm.memory) := by
  intro r
  have hsize := toNat_sizeBehind_of_le hin
  have herror : ¬Status.error = .ok := by decide
  cases ha : shm.shmat with
  | none =>
    have hr : r = _ := handleGetCodeCoverageShm_unattached ha
    rw [hr]
    exact ⟨iff_of_false herror (fun h => nomatch h.1), fun h => absurd h herror⟩
  | some shmAddr =>
    by_cases hc : shm.shmctl = false ∨ (sizeBehind shm offset).toNat < mapSize
    · have hr : r = _ := handleGetCodeCoverageShm_refused ha hc
      rw [hr]
      refine ⟨iff_of_false herror ?_, fun h => absurd h herror⟩
      rintro ⟨-, hctl, -, hfits⟩
      obtain hc | hc := hc
      · exact Bool.false_ne_true (hc.symm.trans hctl)
      · omega
    · obtain ⟨hctl, hfits⟩ := not_or.mp hc
      have hctl := Bool.eq_true_of_not_eq_false hctl
      have hr : r = _ := handleGetCodeCoverageShm_copied ha hctl (Nat.not_lt.mp hfits)
      rw [hr, copy_memory]
      refine ⟨?_, fun _ => rfl⟩
      cases hd : shm.shmdt with
      | true => exact iff_of_true rfl ⟨rfl, hctl, rfl, by omega⟩
      | false => exact iff_of_false herror fun h => Bool.false_ne_true h.2.2.1

end

end Instrumented

/-- The request for the map. -/
def exportRequest (shmId : Int32) (offset : UInt32) : Request :=
  Request.of Command.getCodeCoverageShm.toByte ⟨be32 shmId.toUInt32 ++ be32 offset, by simp⟩

theorem leads_exportRequest (shmId : Int32) (offset : UInt32) :
    Leads (exportRequest shmId offset) (.handleGetCodeCoverageShm shmId offset) := by
  intro τ h g v
  have h0 := bytesToInt32_be32 [] (be32 offset) shmId.toUInt32 g.beyond
  have h4 := bytesToInt32_be32 (be32 shmId.toUInt32) [] offset g.beyond
  simp only [List.nil_append, List.length_nil, List.append_nil, length_be32] at h0 h4
  simp [exportRequest, handleRequest, h0, h4]

section

variable {I : Instrumented σ} {contents : Fin mapSize → UInt8} {w₀ w : World σ}
  {before : List TrackerCall} {pcs : List UInt64}

/-- The map after a reset and some blocks. -/
theorem mBbArray_since_reset (h₀ : SameCoverage (I.sharing.receiver w₀) { mBbArray := contents })
    (hw : I.sharing.Reaches w₀ (before ++ .resetCodeCoverage :: pcs.map .setBlock) w) :
    (I.receiver w.process.receiver).mBbArray =
      histogram mapSize (transitions (lastExecuted before) pcs) := by
  have h := hw.covers.trans (h₀.foldl _)
  rw [List.foldl_append, List.foldl_cons, Instrumented.foldl_setBlock] at h
  exact h.mBbArray.trans (mapAfter_eq contents before pcs)

/-- Whatever requests came before and whatever the platform executed between them: the map that
GET_CODE_COVERAGE_SHM puts into the segment counts the transitions between the blocks executed since
the last RESET_CODE_COVERAGE, the first of them from the last block before it. -/
theorem exported_since_reset
    (h₀ : SameCoverage (I.sharing.receiver w₀) { mBbArray := contents })
    (hw : I.sharing.Reaches w₀ (before ++ .resetCodeCoverage :: pcs.map .setBlock) w)
    (g : Indeterminate) (shmId : Int32) (offset : UInt32)
    (hin : offset.toNat ≤ (w.segments shmId).shmSegsz.toNat) :
    let s := I.sharing.served w g (exportRequest shmId offset)
    let shm := w.segments shmId
    (s.res.responseStatus = Status.ok.toByte ↔ shm.shmat.isSome ∧ shm.shmctl = true ∧
        shm.shmdt = true ∧ offset.toNat + mapSize ≤ shm.shmSegsz.toNat) ∧
      (s.res.responseStatus = Status.ok.toByte → s.state.segments = Function.update w.segments shmId
        { shm with
          memory := exported (histogram mapSize (transitions (lastExecuted before) pcs))
            offset.toNat shm.memory }) := by
  intro s shm
  obtain ⟨hstate, hres⟩ := leads_exportRequest shmId offset _ I.sharing.handlers g w
  have hstatus : s.res.responseStatus = Status.ok.toByte ↔
      (I.sharing.handlers (.handleGetCodeCoverageShm shmId offset) w).status = .ok := by
    have hs : s.res.responseStatus = _ := congrArg Response.responseStatus hres
    rw [hs]
    exact ⟨fun h => Status.toByte_injective h, congrArg Status.toByte⟩
  obtain ⟨hok, hmemory⟩ :=
    Instrumented.export_iff (I.receiver w.process.receiver).mBbArray w.process hin
  refine ⟨hstatus.trans hok, fun h => ?_⟩
  have hs : s.state = _ := hstate
  rw [hs, ← mBbArray_since_reset h₀ hw, ← hmemory (hstatus.mp h)]
  rfl

/-- What the handlers of a class without a platform do to the coverage. -/
def onlyReset (r : Receiver) : HandlerCall → Receiver
  | .handleResetCodeCoverage => r.resetCodeCoverage
  | _ => r

theorem covers_onlyReset (c : HandlerCall) (r : Receiver) :
    SameCoverage (onlyReset r c)
      ((trackerCalls (fun _ _ => []) r c).foldl TrackerCall.apply r) := by
  cases c
  all_goals exact SameCoverage.refl _

def withoutPlatform : Instrumented Receiver where
  handlers c r := ⟨.ok, c.unwritten, onlyReset r c⟩
  receiver r := r
  executed _ _ := []
  covers := covers_onlyReset

/-- A process with a segment that the map fits into. -/
def mapped (r : Receiver) : World Receiver :=
  ⟨{ receiver := r, attached := [] }, fun _ => ⟨65536, fun _ => 0, some 0, true, true⟩⟩

/-- A reset, and one block. -/
theorem block_exported :
    let w := mapped (setBlock (resetCodeCoverage { mBbArray := fun _ => 1 }) 64)
    (withoutPlatform.sharing.served w .zero (exportRequest 0 0)).state.segments =
      Function.update w.segments 0 { w.segments 0 with
        memory := exported (histogram mapSize [transition 0 64]) 0 (w.segments 0).memory } := by
  have hw : withoutPlatform.sharing.Reaches (mapped { mBbArray := fun _ => 1 })
      ([] ++ .resetCodeCoverage :: [64].map .setBlock)
      (mapped (setBlock (resetCodeCoverage { mBbArray := fun _ => 1 }) 64)) :=
    .meanwhile (.request .start .zero (Request.of Command.resetCodeCoverage.toByte .empty)) [64]
      (SameCoverage.refl _)
  have h := exported_since_reset (SameCoverage.refl _) hw .zero 0 0 (by decide)
  exact h.2 (h.1.mpr ⟨rfl, rfl, rfl, by decide⟩)

end

end VpTesting.CoverageCampaigns

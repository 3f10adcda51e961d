import VpTesting.SharedInput

namespace VpTesting.Attachments

open VpTesting.ByteMemory VpTesting.Types VpTesting.HandlerCalls VpTesting.TestingReceiver
  VpTesting.SharedMemory

variable {σ : Type} (h : Handlers σ) (mBbArray : σ → Fin mapSize → UInt8)

inductive ShmRequest
  | doRunShm (a : RunArguments)
  | getCodeCoverageShm (shm : Segment) (offset : UInt32)

/-- How many bytes a call of `handle_do_run` is to read behind its pointer. -/
def dataBytes : HandlerCall → Nat
  | .handleDoRun _ _ _ _ mmioDataLength _ _ => mmioDataLength
  | _ => 0

namespace ShmRequest

/-- The handler returns early, with the segment attached. -/
def Abandons : ShmRequest → Prop
  | doRunShm a => a.shm.shmat.isSome ∧ a.shm.shmctl = false
  | getCodeCoverageShm shm offset =>
    shm.shmat.isSome ∧ (shm.shmctl = false ∨ (sizeBehind shm offset).toNat < mapSize)

instance (r : ShmRequest) : Decidable r.Abandons := by
  cases r <;> exact inferInstanceAs (Decidable (_ ∧ _))

/-- The bytes that the function touches, or hands on to be read, are in the segment. -/
def Inside (p : Process σ) : ShmRequest → Prop
  | doRunShm a =>
    (∀ i ∈ (handleDoRunShm h a p).reads, i < a.shm.shmSegsz.toNat) ∧
      ∀ c ∈ (handleDoRunShm h a p).calls, a.offset.toNat + dataBytes c ≤ a.shm.shmSegsz.toNat
  | getCodeCoverageShm shm offset =>
    ∀ i ∈ (handleGetCodeCoverageShm (mBbArray p.receiver) shm offset p).memory.written,
      i < shm.shmSegsz.toNat

instance (p : Process σ) (r : ShmRequest) : Decidable (r.Inside h mBbArray p) := by
  cases r with
  | doRunShm a => exact inferInstanceAs (Decidable (_ ∧ _))
  | getCodeCoverageShm shm offset => exact inferInstanceAs (Decidable (∀ i ∈ _, _))

/-- The process the function leaves behind, however it ends. -/
def left (p : Process σ) : ShmRequest → Process σ
  | doRunShm a => (handleDoRunShm h a p).process
  | getCodeCoverageShm shm offset =>
    (handleGetCodeCoverageShm (mBbArray p.receiver) shm offset p).process

/-- The process after the request; `none` if the function need not return, for it comes to
memory that is not the segment's. -/
def serve (p : Process σ) (r : ShmRequest) : Option (Process σ) :=
  if r.Inside h mBbArray p then some (r.left h mBbArray p) else none

/-- Once the segment is attached its size can be read, and what the request is about is in it. -/
def Sound : ShmRequest → Prop
  | doRunShm a => a.shm.shmat.isSome → a.shm.shmctl = true ∧ SharedInput.Fits a
  | getCodeCoverageShm shm offset =>
    shm.shmat.isSome → shm.shmctl = true ∧ offset.toNat + mapSize ≤ shm.shmSegsz.toNat

end ShmRequest

/-- The attached segments are those of before and those that `shmdt` failed on since. -/
def Undone (p p' : Process σ) : Prop :=
  ∃ lost, p'.undetached = lost ++ p.undetached ∧ p'.attached = lost ++ p.attached

theorem Undone.refl (p : Process σ) : Undone p p := ⟨[], rfl, rfl⟩

theorem Undone.trans {p q r : Process σ} (hpq : Undone p q) (hqr : Undone q r) : Undone p r := by
  obtain ⟨xs, hu, ha⟩ := hpq
  obtain ⟨ys, hv, hb⟩ := hqr
  refine ⟨ys ++ xs, ?_, ?_⟩
  · rw [hv, hu, List.append_assoc]
  · rw [hb, ha, List.append_assoc]

theorem undone_detach (p : Process σ) (receiver : σ) (address : Nat) (shmdt : Bool) :
    Undone p (({ p.attach address with receiver } : Process σ).detach address shmdt) := by
  cases shmdt with
  | false => exact ⟨[address], rfl, rfl⟩
  | true => exact ⟨[], rfl, List.erase_cons_head address p.attached⟩

theorem Undone.length {p p' : Process σ} (hu : Undone p p') :
    p'.attached.length + p.undetached.length = p'.undetached.length + p.attached.length := by
  obtain ⟨lost, hl, ha⟩ := hu
  rw [hl, ha, List.length_append, List.length_append]
  omega

theorem left_abandoned (p : Process σ) {r : ShmRequest} (hr : r.Abandons) :
    ∃ address, r.left h mBbArray p = p.attach address := by
  cases r with
  | doRunShm a =>
    obtain ⟨address, ha⟩ := Option.isSome_iff_exists.mp hr.1
    refine ⟨address, ?_⟩
    rw [ShmRequest.left, handleDoRunShm_unreported ha hr.2]
  | getCodeCoverageShm shm offset =>
    obtain ⟨address, ha⟩ := Option.isSome_iff_exists.mp hr.1
    refine ⟨address, ?_⟩
    rw [ShmRequest.left, handleGetCodeCoverageShm_refused ha hr.2]

theorem undone_left (p : Process σ) {r : ShmRequest} (hr : ¬r.Abandons) :
    Undone p (r.left h mBbArray p) := by
  cases r with
  | doRunShm a =>
    cases ha : a.shm.shmat with
    | none =>
      rw [ShmRequest.left, handleDoRunShm_unattached ha]
      exact Undone.refl p
    | some address =>
      have hc : a.shm.shmctl = true := by
        by_contra hc
        exact hr ⟨Option.isSome_of_eq_some ha, Bool.eq_false_iff.mpr hc⟩
      rw [ShmRequest.left, handleDoRunShm_reported ha hc]
      exact undone_detach p _ address a.shm.shmdt
  | getCodeCoverageShm shm offset =>
    cases ha : shm.shmat with
    | none =>
      rw [ShmRequest.left, handleGetCodeCoverageShm_unattached ha]
      exact Undone.refl p
    | some address =>
      have hc : ¬(shm.shmctl = false ∨ (sizeBehind shm offset).toNat < mapSize) := fun hc =>
        hr ⟨Option.isSome_of_eq_some ha, hc⟩
      rw [not_or, Bool.not_eq_false, Nat.not_lt] at hc
      rw [ShmRequest.left, handleGetCodeCoverageShm_copied ha hc.1 hc.2]
      exact undone_detach p p.receiver address shm.shmdt

/-- A run is sound exactly if it neither is abandoned nor leaves the segment. -/
theorem sound_doRunShm_iff (p : Process σ) (a : RunArguments) :
    (ShmRequest.doRunShm a).Sound ↔
      ¬(ShmRequest.doRunShm a).Abandons ∧ (ShmRequest.doRunShm a).Inside h mBbArray p := by
  rw [ShmRequest.Sound, ShmRequest.Abandons, ShmRequest.Inside]
  cases ha : a.shm.shmat with
  | none => simp [handleDoRunShm_unattached ha]
  | some address =>
    cases hc : a.shm.shmctl with
    | false => simp
    | true =>
      rw [handleDoRunShm_reported ha hc]
      have hf : SharedInput.Fits a ↔ (∀ i ∈ searched a, i < a.shm.shmSegsz.toNat) ∧
          a.offset.toNat + (dataLength a).toNat ≤ a.shm.shmSegsz.toNat := by
        constructor
        · intro hf
          obtain ⟨hin, hreads, -⟩ := SharedInput.isInput_of_fits hf
          exact ⟨hreads, hin⟩
        · exact fun ⟨hreads, hin⟩ => SharedInput.fits_of_inside hin hreads
      simpa [runCall, dataBytes] using hf

/-- Where the fit test succeeds, the map is in the segment unless the offset is behind it. -/
theorem sound_getCodeCoverageShm_iff (p : Process σ) (shm : Segment) (offset : UInt32) :
    (ShmRequest.getCodeCoverageShm shm offset).Sound ↔
      ¬(ShmRequest.getCodeCoverageShm shm offset).Abandons ∧
        (ShmRequest.getCodeCoverageShm shm offset).Inside h mBbArray p := by
  rw [ShmRequest.Sound, ShmRequest.Abandons, ShmRequest.Inside]
  cases ha : shm.shmat with
  | none => simp [handleGetCodeCoverageShm_unattached ha]
  | some address =>
    cases hc : shm.shmctl with
    | false => simp
    | true =>
      have hpos : 0 < mapSize := by decide
      by_cases hl : (sizeBehind shm offset).toNat < mapSize
      · have hn : ¬offset.toNat + mapSize ≤ shm.shmSegsz.toNat := by
          intro hle
          rw [toNat_sizeBehind_of_le (by omega)] at hl
          omega
        simp [hl, hn]
      · have hw : (∀ i ∈ (({ memory := shm.memory } : Buffer UInt8).copy offset.toNat
            (List.ofFn (mBbArray p.receiver))).written, i < shm.shmSegsz.toNat) ↔
              offset.toNat + mapSize ≤ shm.shmSegsz.toNat := by
          simp only [Buffer.copy, List.nil_append, List.length_ofFn, List.mem_range'_1]
          constructor
          · intro hi
            have hlast := hi (offset.toNat + mapSize - 1) (by omega)
            omega
          · exact fun hle i hi => by omega
        rw [handleGetCodeCoverageShm_copied ha hc (Nat.not_lt.mp hl), hw]
        simp [hl]

theorem sound_iff (p : Process σ) (r : ShmRequest) :
    r.Sound ↔ ¬r.Abandons ∧ r.Inside h mBbArray p := by
  cases r with
  | doRunShm a => exact sound_doRunShm_iff h mBbArray p a
  | getCodeCoverageShm shm offset => exact sound_getCodeCoverageShm_iff h mBbArray p shm offset

/-- The process after a sequence of requests, if all of them return. -/
def run (p : Process σ) (requests : List ShmRequest) : Option (Process σ) :=
  requests.foldlM (fun p r => r.serve h mBbArray p) p

/-- Every function has returned, and every attachment but those that `shmdt` failed on is undone. -/
def AllUndone (p : Process σ) (requests : List ShmRequest) : Prop :=
  ∃ p', run h mBbArray p requests = some p' ∧ Undone p p'

variable {h mBbArray}

theorem run_cons_eq_some {p p' : Process σ} {r : ShmRequest} {requests : List ShmRequest} :
    run h mBbArray p (r :: requests) = some p' ↔
      r.Inside h mBbArray p ∧ run h mBbArray (r.left h mBbArray p) requests = some p' := by
  have hcons : run h mBbArray p (r :: requests) =
      (r.serve h mBbArray p).bind fun p => run h mBbArray p requests := rfl
  rw [hcons, ShmRequest.serve]
  split_ifs with hr
  · simp [hr]
  · simp [hr]

theorem allUndone_of_sound (p : Process σ) (requests : List ShmRequest)
    (hr : ∀ r ∈ requests, r.Sound) : AllUndone h mBbArray p requests := by
  induction requests generalizing p with
  | nil => exact ⟨p, rfl, Undone.refl p⟩
  | cons r requests ih =>
    obtain ⟨hn, hi⟩ := (sound_iff h mBbArray p r).mp (hr r List.mem_cons_self)
    obtain ⟨p', hrun, hu⟩ := ih (r.left h mBbArray p) fun r' hr' =>
      hr r' (List.mem_cons_of_mem r hr')
    exact ⟨p', run_cons_eq_some.mpr ⟨hi, hrun⟩, (undone_left h mBbArray p hn).trans hu⟩

/-- With every request that is abandoned, one more segment stays attached. -/
theorem length_attached_run {p p' : Process σ} {requests : List ShmRequest}
    (hrun : run h mBbArray p requests = some p') :
    p'.attached.length + p.undetached.length =
      p'.undetached.length + p.attached.length +
        requests.countP fun r => decide r.Abandons := by
  induction requests generalizing p with
  | nil =>
    obtain rfl : p = p' := Option.some.inj hrun
    exact Nat.add_comm _ _
  | cons r requests ih =>
    have ht := ih (run_cons_eq_some.mp hrun).2
    rw [List.countP_cons]
    by_cases hr : r.Abandons
    · obtain ⟨address, hs⟩ := left_abandoned h mBbArray p hr
      rw [if_pos (decide_eq_true hr)]
      simp only [hs, Process.attach, List.length_cons] at ht
      omega
    · have hs := (undone_left h mBbArray p hr).length
      rw [if_neg (by simpa using hr)]
      omega

/-- If all requests return, what they touched was in their segments. -/
theorem sound_of_run {p p' : Process σ} {requests : List ShmRequest}
    (hrun : run h mBbArray p requests = some p') (hr : ∀ r ∈ requests, ¬r.Abandons) :
    ∀ r ∈ requests, r.Sound := by
  induction requests generalizing p with
  | nil => exact List.forall_mem_nil _
  | cons r requests ih =>
    obtain ⟨hi, hrun⟩ := run_cons_eq_some.mp hrun
    rw [List.forall_mem_cons] at hr ⊢
    exact ⟨(sound_iff h mBbArray p r).mpr ⟨hr.1, hi⟩, ih hrun hr.2⟩

theorem not_abandons_of_allUndone {p : Process σ} {requests : List ShmRequest}
    (hu : AllUndone h mBbArray p requests) : ∀ r ∈ requests, ¬r.Abandons := by
  obtain ⟨p', hrun, hu⟩ := hu
  have hl := hu.length
  have hc := length_attached_run hrun
  intro r hr ha
  have hpos : 0 < requests.countP fun r => decide r.Abandons :=
    List.countP_pos_iff.mpr ⟨r, hr, decide_eq_true ha⟩
  omega

variable (h mBbArray)

/-- All functions return with every attachment undone exactly if every request is sound. -/
theorem undone_iff (p : Process σ) (requests : List ShmRequest) :
    AllUndone h mBbArray p requests ↔ ∀ r ∈ requests, r.Sound := by
  constructor
  · intro hu
    have hn := not_abandons_of_allUndone hu
    obtain ⟨p', hrun, -⟩ := hu
    exact sound_of_run hrun hn
  · exact allUndone_of_sound p requests

/-- The map does not fit into one page. -/
def exportToPage : ShmRequest := .getCodeCoverageShm ⟨4096, fun _ => 0, some 0, true, true⟩ 0

theorem exportToPage_not_undone :
    ¬AllUndone (silent Unit) (fun _ _ => 0) ⟨(), [], []⟩ [exportToPage] := fun hu =>
  not_abandons_of_allUndone hu _ List.mem_cons_self ⟨rfl, Or.inr (by decide)⟩

end VpTesting.Attachments

import VpTesting.SharedMemory

namespace VpTesting.SharedInput

open VpTesting.ByteMemory VpTesting.CStrings VpTesting.Types VpTesting.HandlerCalls
  VpTesting.SharedMemory

variable {σ : Type}

/-- The `length` bytes behind the offset go to the end of the segment or of the string, and
they and the bytes searched for the end of the string are in the segment. -/
def IsInput (a : RunArguments) (length : Nat) (reads : List Nat) : Prop :=
  a.offset.toNat + length ≤ a.shm.shmSegsz.toNat ∧ (∀ i ∈ reads, i < a.shm.shmSegsz.toNat) ∧
    if a.stopAfterStringTermination then
      StringEnd a.shm.memory a.offset.toNat a.shm.shmSegsz.toNat (a.offset.toNat + length)
    else a.offset.toNat + length = a.shm.shmSegsz.toNat

/-- Whenever `handle_do_run` is called, it gets the right slice. -/
def RightSlice (a : RunArguments) (r : RunReturned σ) : Prop :=
  ∀ c ∈ r.calls, ∃ length, c = runCall a length ∧ IsInput a length r.reads

/-- The offset is in the segment, or at its end and there is nothing to search. -/
def Fits (a : RunArguments) : Prop :=
  a.offset.toNat < a.shm.shmSegsz.toNat ∨
    a.offset.toNat = a.shm.shmSegsz.toNat ∧ a.stopAfterStringTermination = false

variable {a : RunArguments}

theorem toNat_pred_sizeBehind (ho : a.offset.toNat < a.shm.shmSegsz.toNat) :
    (sizeBehind a.shm a.offset - 1).toNat = a.shm.shmSegsz.toNat - a.offset.toNat - 1 := by
  have hz := a.shm.shmSegsz.toNat_lt
  rw [UInt64.toNat_sub, toNat_sizeBehind_of_le (Nat.le_of_lt ho), UInt64.toNat_one]
  omega

theorem toNat_dataLength_string (hs : a.stopAfterStringTermination = true)
    (ho : a.offset.toNat < a.shm.shmSegsz.toNat) :
    (dataLength a).toNat = strnlen a.shm.memory a.offset.toNat
      (a.shm.shmSegsz.toNat - a.offset.toNat - 1) + 1 := by
  have hz := a.shm.shmSegsz.toNat_lt
  have hle : strnlen a.shm.memory a.offset.toNat (a.shm.shmSegsz.toNat - a.offset.toNat - 1) ≤
      a.shm.shmSegsz.toNat - a.offset.toNat - 1 := strnlen_le
  rw [dataLength, if_pos hs, toNat_pred_sizeBehind ho, UInt64.toNat_add, UInt64.toNat_ofNat',
    UInt64.toNat_one]
  omega

theorem toNat_dataLength_plain (hs : a.stopAfterStringTermination = false) :
    (dataLength a).toNat = (sizeBehind a.shm a.offset).toNat := by
  simp [dataLength, hs]

/-- With the offset in the segment the search stays in front of the last byte. -/
theorem lt_of_mem_searched (ho : a.offset.toNat < a.shm.shmSegsz.toNat) {i : Nat}
    (hi : i ∈ searched a) : i < a.shm.shmSegsz.toNat := by
  unfold searched at hi
  split at hi
  · rw [toNat_pred_sizeBehind ho] at hi
    have hlt := lt_of_mem_scanned hi
    omega
  · exact absurd hi List.not_mem_nil

theorem isInput_plain (hs : a.stopAfterStringTermination = false)
    (ho : a.offset.toNat ≤ a.shm.shmSegsz.toNat) :
    IsInput a (dataLength a).toNat (searched a) := by
  have hlength : a.offset.toNat + (dataLength a).toNat = a.shm.shmSegsz.toNat := by
    rw [toNat_dataLength_plain hs, toNat_sizeBehind_of_le ho]
    omega
  have hn : searched a = [] := by simp [searched, hs]
  refine ⟨Nat.le_of_eq hlength, fun i hi => ?_, ?_⟩
  · rw [hn] at hi
    exact absurd hi List.not_mem_nil
  · simpa [hs] using hlength

theorem isInput_string (hs : a.stopAfterStringTermination = true)
    (ho : a.offset.toNat < a.shm.shmSegsz.toNat) :
    IsInput a (dataLength a).toNat (searched a) := by
  have hle : strnlen a.shm.memory a.offset.toNat (a.shm.shmSegsz.toNat - a.offset.toNat - 1) ≤
      a.shm.shmSegsz.toNat - a.offset.toNat - 1 := strnlen_le
  have hend := stringEnd_strnlen (m := a.shm.memory) ho
  rw [← toNat_dataLength_string hs ho] at hend
  refine ⟨?_, fun i hi => lt_of_mem_searched ho hi, ?_⟩
  · rw [toNat_dataLength_string hs ho]
    omega
  · simpa [hs] using hend

theorem isInput_of_fits (hf : Fits a) : IsInput a (dataLength a).toNat (searched a) := by
  cases hs : a.stopAfterStringTermination with
  | false =>
    apply isInput_plain hs
    obtain hlt | ⟨heq, -⟩ := hf
    · exact Nat.le_of_lt hlt
    · exact Nat.le_of_eq heq
  | true =>
    apply isInput_string hs
    obtain hlt | ⟨-, hn⟩ := hf
    · exact hlt
    · exact absurd (hs.symm.trans hn) (by decide)

/-- Behind the end of the segment no slice is in it, and the search starts outside. -/
theorem fits_of_inside {length : Nat} (hin : a.offset.toNat + length ≤ a.shm.shmSegsz.toNat)
    (hreads : ∀ i ∈ searched a, i < a.shm.shmSegsz.toNat) : Fits a := by
  have hsize := a.offset.toNat_lt
  obtain hlt | hge := Nat.lt_or_ge a.offset.toNat a.shm.shmSegsz.toNat
  · exact Or.inl hlt
  have heq : a.offset.toNat = a.shm.shmSegsz.toNat := by omega
  refine Or.inr ⟨heq, Bool.eq_false_iff.mpr fun hs => ?_⟩
  have hpos : 0 < (sizeBehind a.shm a.offset - 1).toNat := by
    rw [UInt64.toNat_sub, UInt64.toNat_one, toNat_sizeBehind_of_le (Nat.le_of_eq heq)]
    omega
  have hmem : a.offset.toNat ∈ searched a := by
    rw [searched, if_pos hs]
    exact start_mem_scanned hpos
  have hlt := hreads _ hmem
  omega

theorem rightSlice_of_isInput (h : Handlers σ) (p : Process σ)
    (hi : a.shm.shmat.isSome → a.shm.shmctl = true →
      IsInput a (dataLength a).toNat (searched a)) :
    RightSlice a (handleDoRunShm h a p) := by
  intro c hc
  cases ha : a.shm.shmat with
  | none =>
    rw [handleDoRunShm_unattached ha] at hc
    exact absurd hc List.not_mem_nil
  | some mmioData =>
    cases hr : a.shm.shmctl with
    | false =>
      rw [handleDoRunShm_unreported ha hr] at hc
      exact absurd hc List.not_mem_nil
    | true =>
      rw [handleDoRunShm_reported ha hr] at hc ⊢
      exact ⟨_, List.mem_singleton.mp hc, hi (Option.isSome_of_eq_some ha) hr⟩

theorem fits_of_rightSlice {h : Handlers σ} {p : Process σ} (ha : a.shm.shmat.isSome)
    (hr : a.shm.shmctl = true) (hp : RightSlice a (handleDoRunShm h a p)) : Fits a := by
  obtain ⟨mmioData, ha⟩ := Option.isSome_iff_exists.mp ha
  rw [handleDoRunShm_reported ha hr] at hp
  obtain ⟨length, -, hin, hreads, -⟩ := hp _ (List.mem_singleton.mpr rfl)
  exact fits_of_inside hin hreads

/-- `handle_do_run` gets the right slice exactly if the offset fits, or is not called. -/
theorem rightSlice_iff (h : Handlers σ) (a : RunArguments) (p : Process σ) :
    RightSlice a (handleDoRunShm h a p) ↔
      (a.shm.shmat.isSome → a.shm.shmctl = true → Fits a) :=
  ⟨fun hp ha hr => fits_of_rightSlice ha hr hp,
    fun hf => rightSlice_of_isInput h p fun ha hr => isInput_of_fits (hf ha hr)⟩

/-- An offset at the end of a page, and a string to be searched for. -/
def behindPage : RunArguments where
  startBreakpoint := []
  endBreakpoint := []
  mmioAddress := 0
  mmioLength := 1
  shm := ⟨4096, fun _ => 0, some 0, true, true⟩
  offset := 4096
  stopAfterStringTermination := true
  registerName := []

theorem behindPage_not_rightSlice :
    ¬RightSlice behindPage (handleDoRunShm (silent Unit) behindPage ⟨(), [], []⟩) := by
  intro hp
  have hf := fits_of_rightSlice rfl rfl hp
  obtain hlt | ⟨-, hs⟩ := hf
  · exact absurd hlt (by decide)
  · cases hs

end VpTesting.SharedInput

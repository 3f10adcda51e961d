import VpTesting.DoRun

namespace VpTesting.PayloadBounds

open VpTesting.ByteMemory VpTesting.Types VpTesting.TestingCommunication VpTesting.HandlerCalls
  VpTesting.StateRules VpTesting.HandleRequest VpTesting.DoRun

variable {σ α : Type}

/-- Every region of the payload touched so far lies in its first `n` bytes. -/
def Within (n : Nat) (s : Handling σ) : Prop := ∀ a ∈ s.accesses, a.start + a.length ≤ n

instance (n : Nat) (s : Handling σ) : Decidable (Within n s) :=
  inferInstanceAs (Decidable (∀ a ∈ s.accesses, a.start + a.length ≤ n))

theorem Within.touch {n start length : Nat} {s : Handling σ} (hs : Within n s)
    (h : start + length ≤ n) : Within n (s.touch start length) := by
  intro a ha
  obtain ha | ha := List.mem_append.mp ha
  · exact hs a ha
  · rw [List.mem_singleton.mp ha]
    exact h

theorem within_read {n start length : Nat} {x : StateM (Handling σ) α} {v : α}
    {f : α → StateM (Handling σ) Unit} (h : start + length ≤ n)
    (hx : ∀ s, x.run s = (v, s.touch start length))
    (hf : Triple (Within n) (f v) (fun _ => Within n)) :
    Triple (Within n) (x >>= f) (fun _ => Within n) :=
  triple_read hx (fun _ hs => hs.touch h) hf

theorem within_invokeWithoutData (n : Nat) (h : Handlers σ) (c : HandlerCall) :
    Triple (Within n) (invokeWithoutData h c) (fun _ => Within n) := fun _ hs => hs

theorem within_exact {n k : Nat} {req : Request} {x : StateM (Handling σ) Unit}
    (hx : req.dataLength.toNat = k → Triple (Within n) x (fun _ => Within n)) :
    Triple (Within n) (checkExactRequestLength req k >>= fun b => if b = true then x else pure ())
      (fun _ => Within n) :=
  triple_exact (fun _ hs => hs) hx

theorem within_min {n k : Nat} {req : Request} {x : StateM (Handling σ) Unit}
    (hx : k ≤ req.dataLength.toNat → Triple (Within n) x (fun _ => Within n)) :
    Triple (Within n) (checkMinRequestLength req k >>= fun b => if b = true then x else pure ())
      (fun _ => Within n) :=
  triple_min (fun _ hs => hs) hx

/-- The payloads that each command handles without leaving them. -/
def Safe (command : UInt8) (p : Payload) : Prop :=
  match Command.ofByte command with
  | some .setReturnCodeAddress => p.bytes.length < 5 ∨ 8 ≤ p.bytes.length
  | some .setMmioValue => p.bytes.length = 0 ∨ 4 ≤ p.bytes.length
  | some .doRun => ¬Wraps p
  | _ => True

theorem within_of_safe (h : Handlers σ) (g : Indeterminate) (v : σ) (command : UInt8) (p : Payload)
    (hs : Safe command p) :
    Within p.bytes.length ((handleRequest h g (Request.of command p)).run { state := v }).2 := by
  have h0 : Within p.bytes.length ({ state := v } : Handling σ) := by simp [Within]
  have hn : (Request.of command p).dataLength.toNat = p.bytes.length := p.toNat_length
  have hd : (Request.of command p).data.getD [] = p.bytes := p.getD_pointer
  have hr : (Request.of command p).requestCommand = command := rfl
  unfold Safe at hs
  rcases hc : Command.ofByte command with _ | c
  · simp only [handleRequest, hr, hc]
    exact h0
  rw [hc] at hs
  cases c <;> simp only [handleRequest, hr, hc, hd] <;> simp only at hs
  case disableMmioTracking | enableCodeCoverage | disableCodeCoverage | resetCodeCoverage |
      storeCpuRegisters | restoreCpuRegisters =>
    exact within_exact (fun _ => within_invokeWithoutData _ h _) _ h0
  case «continue» | getCodeCoverage | getReturnCode | getCpuPc =>
    refine within_exact (fun _ => ?_) _ h0
    exact fun _ hw => hw
  case kill =>
    refine within_exact (fun hl => ?_) _ h0
    refine within_read (by omega) (run_readByte 0 _) ?_
    exact within_invokeWithoutData _ h _
  case setBreakpoint =>
    refine within_min (fun hl => ?_) _ h0
    refine within_read (by omega) (run_readByte 0 _) ?_
    refine within_read (by omega) (run_readSlice _ 1 _) ?_
    exact within_invokeWithoutData _ h _
  case removeBreakpoint | setErrorSymbol =>
    refine within_min (fun hl => ?_) _ h0
    refine within_read (by omega) (run_readSlice _ 0 _) ?_
    exact within_invokeWithoutData _ h _
  case enableMmioTracking =>
    refine within_exact (fun hl => ?_) _ h0
    refine within_read (by omega) (run_readInt64 0 _) ?_
    refine within_read (by omega) (run_readInt64 8 _) ?_
    refine within_read (by omega) (run_readByte 16 _) ?_
    exact within_invokeWithoutData _ h _
  case setMmioValue =>
    by_cases hl : p.bytes.length < 1
    · simp [hn, hl, Within]
    · have hw : 4 ≤ p.bytes.length := by omega
      simp [hn, hl, hw, Within]
  case addToMmioReadQueue =>
    refine within_min (fun hl => ?_) _ h0
    refine within_read (by omega) (run_readInt64 0 _) ?_
    refine within_read (by omega) (run_readInt32 8 _) ?_
    refine within_read (by omega) (run_readInt32 12 _) ?_
    refine within_exact fun he => ?_
    obtain hs | hs := sum_check (a := 16) he (by decide)
    · refine within_read (by omega) (run_readSlice _ 16 _) ?_
      exact within_invokeWithoutData _ h _
    · have hlt := (bytesToInt32 (view p.bytes g.beyond) 12).toUInt32.toNat_lt
      omega
  case setCpuInterruptTrigger =>
    refine within_exact (fun hl => ?_) _ h0
    refine within_read (by omega) (run_readInt64 0 _) ?_
    refine within_read (by omega) (run_readInt64 8 _) ?_
    exact within_invokeWithoutData _ h _
  case getCodeCoverageShm =>
    refine within_exact (fun hl => ?_) _ h0
    refine within_read (by omega) (run_readInt32 0 _) ?_
    refine within_read (by omega) (run_readInt32 4 _) ?_
    exact within_invokeWithoutData _ h _
  case setReturnCodeAddress =>
    refine within_min (fun hl => ?_) _ h0
    refine within_read (by omega) (run_readInt64 0 _) ?_
    refine within_read (by omega) (run_readSlice _ 4 _) ?_
    exact within_invokeWithoutData _ h _
  case doRun =>
    refine within_min (fun hl => ?_) _ h0
    refine within_read (by omega) (run_readInt64 0 _) ?_
    refine within_read (by omega) (run_readInt32 8 _) ?_
    refine within_read (by omega) (run_readInt32 12 _) ?_
    refine within_read (by omega) (run_readByte 16 _) ?_
    refine within_read (by omega) (run_readByte 17 _) ?_
    refine within_read (by omega) (run_readByte 18 _) ?_
    refine within_exact fun he => ?_
    have hsum := not_wraps_sum hs (by omega) g.beyond (by rw [← hn]; exact he)
    simp only [dataStart, dataLength] at hsum
    refine within_read (by omega) (run_readSlice _ 19 _) ?_
    refine within_read (by omega) (run_readSlice _ _ _) ?_
    refine within_read (by omega) (run_readSlice _ _ _) ?_
    refine within_read (by omega) (run_readSlice _ _ _) ?_
    exact within_invokeWithoutData _ h _
  case doRunShm =>
    refine within_min (fun hl => ?_) _ h0
    refine within_read (by omega) (run_readInt64 0 _) ?_
    refine within_read (by omega) (run_readInt32 8 _) ?_
    refine within_read (by omega) (run_readInt32 12 _) ?_
    refine within_read (by omega) (run_readInt32 16 _) ?_
    refine within_read (by omega) (run_readByte 20 _) ?_
    refine within_read (by omega) (run_readByte 21 _) ?_
    refine within_read (by omega) (run_readByte 22 _) ?_
    refine within_read (by omega) (run_readByte 23 _) ?_
    refine within_exact fun he => ?_
    refine within_read (by omega) (run_readSlice _ 24 _) ?_
    refine within_read (by omega) (run_readSlice _ _ _) ?_
    refine within_read (by omega) (run_readSlice _ _ _) ?_
    exact within_invokeWithoutData _ h _
  case setFixedRead =>
    refine within_min (fun hl => ?_) _ h0
    refine within_read (by omega) (run_readByte 0 _) ?_
    refine within_exact fun he => ?_
    refine within_read (by omega) (run_readSlice _ 1 _) ?_
    exact within_invokeWithoutData _ h _
  case jumpCpuTo =>
    refine within_exact (fun hl => ?_) _ h0
    refine within_read (by omega) (run_readInt64 0 _) ?_
    exact within_invokeWithoutData _ h _

/-- Each kind of unsafe request makes the receiver read, or hand on, a region
that ends behind the payload. -/
theorem not_within_of_not_safe (h : Handlers σ) (g : Indeterminate) (v : σ) (command : UInt8)
    (p : Payload) (hs : ¬Safe command p) :
    ¬Within p.bytes.length ((handleRequest h g (Request.of command p)).run { state := v }).2 := by
  intro hw
  have hn : (Request.of command p).dataLength.toNat = p.bytes.length := p.toNat_length
  unfold Safe at hs
  split at hs
  · next hc =>
    have hl : ¬p.bytes.length < 5 := by omega
    have ha := hw ⟨0, 8⟩ (by simp [handleRequest, hc, hn, hl])
    simp only at ha
    omega
  · next hc =>
    have hl : ¬p.bytes.length < 1 := by omega
    have ha := hw ⟨4, 0⟩ (by simp [handleRequest, hc, hn, hl])
    simp only at ha
    omega
  · next hc =>
    obtain rfl := (Command.ofByte_eq_some_iff command .doRun).mp hc
    have hwrap := not_not.mp hs
    obtain ⟨hsum, he⟩ := hwrap.sum_passes g.beyond
    rw [run_doRun, if_neg (Nat.not_lt.mpr hwrap.1), if_neg (not_not.mpr he)] at hw
    have ha := hw ⟨_, _⟩ (List.mem_append_right _ (List.mem_singleton_self _))
    simp only at ha
    omega
  · exact hs trivial

/-- The requests handled without leaving the payload are the safe ones, whatever
lies behind the payload and whatever the handlers do. -/
theorem within_iff_safe (h : Handlers σ) (g : Indeterminate) (v : σ) (command : UInt8)
    (p : Payload) :
    Within p.bytes.length ((handleRequest h g (Request.of command p)).run { state := v }).2 ↔
      Safe command p :=
  ⟨fun hw => by_contra fun hs => not_within_of_not_safe h g v command p hs hw,
    within_of_safe h g v command p⟩

/-- Of an address cut short after five bytes, eight are read. -/
theorem shortAddress_not_within :
    ¬Within 5 ((handleRequest (silent Unit) Indeterminate.zero
      (Request.of Command.setReturnCodeAddress.toByte ⟨[0, 0, 0, 1, 65], by decide⟩)).run
        { state := () }).2 :=
  not_within_of_not_safe (silent Unit) Indeterminate.zero () Command.setReturnCodeAddress.toByte
    ⟨[0, 0, 0, 1, 65], by decide⟩ (by simp [Safe])

end VpTesting.PayloadBounds

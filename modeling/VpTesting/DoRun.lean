import VpTesting.HandleRequest

namespace VpTesting.DoRun

open VpTesting.ByteMemory VpTesting.BigEndian VpTesting.Types VpTesting.TestingCommunication
  VpTesting.HandlerCalls VpTesting.StateRules VpTesting.HandleRequest

variable {σ : Type}

/-- Where the data of a DO_RUN payload starts, behind the header and the three names. -/
def dataStart (m : Nat → UInt8) : Nat := 19 + (m 16).toNat + (m 17).toNat + (m 18).toNat

def dataLength (m : Nat → UInt8) : UInt32 := (bytesToInt32 m 12).toUInt32

/-- The announced length exceeds the length of the payload by exactly `2 ^ 32`. -/
def Wraps (p : Payload) : Prop :=
  20 ≤ p.bytes.length ∧
    dataStart (view p.bytes (fun _ => 0)) + (dataLength (view p.bytes (fun _ => 0))).toNat =
      p.bytes.length + 2 ^ 32

instance (p : Payload) : Decidable (Wraps p) := by unfold Wraps; infer_instance

theorem header_view (contents : List UInt8) (beyond : Nat → UInt8) (h : 20 ≤ contents.length) :
    dataStart (view contents beyond) = dataStart (view contents (fun _ => 0)) ∧
      dataLength (view contents beyond) = dataLength (view contents (fun _ => 0)) := by
  have hv (i : Nat) (hi : i < 20) : view contents beyond i = view contents (fun _ => 0) i := by
    have hc : i < contents.length := by omega
    simp [view, hc]
  constructor
  · simp [dataStart, hv]
  · simp [dataLength, bytesToInt32, hv]

theorem dataStart_lt (m : Nat → UInt8) : dataStart m < 2 ^ 10 := by
  have h16 := (m 16).toNat_lt
  have h17 := (m 17).toNat_lt
  have h18 := (m 18).toNat_lt
  unfold dataStart
  omega

/-- A 32-bit sum with a small integer equals a length or exceeds it by `2 ^ 32`. -/
theorem sum_check {n a : Nat} {d : UInt32} (h : n = (UInt32.ofNat a + d).toNat) (ha : a < 2 ^ 10) :
    a + d.toNat = n ∨ a + d.toNat = n + 2 ^ 32 := by
  have hd := d.toNat_lt
  rw [UInt32.toNat_add, UInt32.toNat_ofNat'] at h
  omega

/-- A payload that wraps passes the check of the sum. -/
theorem Wraps.sum_passes {p : Payload} (hw : Wraps p) (beyond : Nat → UInt8) :
    dataStart (view p.bytes beyond) + (dataLength (view p.bytes beyond)).toNat =
        p.bytes.length + 2 ^ 32 ∧
      p.bytes.length = (UInt32.ofNat (dataStart (view p.bytes beyond)) +
        dataLength (view p.bytes beyond)).toNat := by
  obtain ⟨hl, hw⟩ := hw
  obtain ⟨hstart, hlength⟩ := header_view p.bytes beyond hl
  rw [← hstart, ← hlength] at hw
  refine ⟨hw, ?_⟩
  have hlt := dataStart_lt (view p.bytes beyond)
  have hb := p.bytes_lt
  rw [UInt32.toNat_add, UInt32.toNat_ofNat']
  omega

theorem not_wraps_sum {p : Payload} (hw : ¬Wraps p) (hl : 20 ≤ p.bytes.length)
    (beyond : Nat → UInt8) (he : p.bytes.length =
      (UInt32.ofNat (dataStart (view p.bytes beyond)) + dataLength (view p.bytes beyond)).toNat) :
    dataStart (view p.bytes beyond) + (dataLength (view p.bytes beyond)).toNat =
      p.bytes.length := by
  obtain hsum | hsum := sum_check he (dataStart_lt _)
  · exact hsum
  · obtain ⟨hstart, hlength⟩ := header_view p.bytes beyond hl
    rw [hstart, hlength] at hsum
    exact absurd ⟨hl, hsum⟩ hw

def doRunCall (m : Nat → UInt8) : HandlerCall :=
  .handleDoRun (slice m 19 (m 16).toNat) (slice m ((m 16).toNat + 19) (m 17).toNat)
    (bytesToInt64 m 0).toUInt64 (bytesToInt32 m 8).toUInt32.toNat (dataLength m).toNat
    (slice m (dataStart m) (dataLength m).toNat)
    (slice m ((m 16).toNat + (m 17).toNat + 19) (m 18).toNat)

def touchHeader (s : Handling σ) : Handling σ :=
  (((((s.touch 0 8).touch 8 4).touch 12 4).touch 16 1).touch 17 1).touch 18 1

def touchSlices (m : Nat → UInt8) (s : Handling σ) : Handling σ :=
  (((s.touch 19 (m 16).toNat).touch ((m 16).toNat + 19) (m 17).toNat).touch
    ((m 16).toNat + (m 17).toNat + 19) (m 18).toNat).touch (dataStart m) (dataLength m).toNat

/-- The three ways through the DO_RUN branch. -/
theorem run_doRun (h : Handlers σ) (g : Indeterminate) (p : Payload) (s : Handling σ) :
    ((handleRequest h g (Request.of Command.doRun.toByte p)).run s).2 =
      if p.bytes.length < 20 then s.reject
      else if p.bytes.length ≠ (UInt32.ofNat (dataStart (view p.bytes g.beyond)) +
          dataLength (view p.bytes g.beyond)).toNat then (touchHeader s).reject
      else ((touchSlices (view p.bytes g.beyond) (touchHeader s)).call h
        (doRunCall (view p.bytes g.beyond))).setData none 0 := by
  by_cases hl : p.bytes.length < 20
  · simp [handleRequest, hl]
  by_cases he : p.bytes.length = (UInt32.ofNat (dataStart (view p.bytes g.beyond)) +
      dataLength (view p.bytes g.beyond)).toNat
  · rw [if_neg hl, if_neg (not_not.mpr he)]
    simp only [dataStart, dataLength] at he
    simp only [handleRequest, Request.of_requestCommand, Command.ofByte_toByte, Request.of_data,
      Request.of_dataLength, run_bind, run_checkMinRequestLength, run_readInt64,
      run_readInt32, run_readByte, run_checkExactRequestLength, run_readSlice,
      run_invokeWithoutData, if_neg hl, if_neg (not_not.mpr he), if_true]
    rfl
  · rw [if_neg hl, if_pos he]
    simp only [dataStart, dataLength] at he
    simp only [handleRequest, Request.of_requestCommand, Command.ofByte_toByte, Request.of_data,
      Request.of_dataLength, run_bind, run_checkMinRequestLength, run_readInt64,
      run_readInt32, run_readByte, run_checkExactRequestLength, run_pure, if_neg hl, if_pos he,
      if_true, if_false, Bool.false_eq_true]
    rfl

/-- Memory that starts with a DO_RUN layout is decoded into the parts of the layout. -/
theorem doRunCall_of_slice (m : Nat → UInt8) (address : UInt64) (length : UInt32)
    (sb eb rn ds : List UInt8) (hsb : sb.length < 256) (heb : eb.length < 256)
    (hrn : rn.length < 256) (hds : ds.length < 2 ^ 32)
    (h : slice m 0 (19 + sb.length + eb.length + rn.length + ds.length) =
      be64 address ++ be32 length ++ be32 (UInt32.ofNat ds.length) ++
        [UInt8.ofNat sb.length, UInt8.ofNat eb.length, UInt8.ofNat rn.length] ++
        sb ++ eb ++ rn ++ ds) :
    dataStart m = 19 + sb.length + eb.length + rn.length ∧
      dataLength m = UInt32.ofNat ds.length ∧
      doRunCall m = .handleDoRun sb eb address length.toNat ds.length ds rn := by
  simp only [slice_add, Nat.zero_add] at h
  obtain ⟨h, hd⟩ := List.append_inj' h (by simp)
  obtain ⟨h, hr⟩ := List.append_inj' h (by simp)
  obtain ⟨h, he⟩ := List.append_inj' h (by simp)
  obtain ⟨h, hs⟩ := List.append_inj' h (by simp)
  have h19 : slice m 0 19 = slice m 0 8 ++ slice m 8 4 ++ slice m 12 4 ++ [m 16, m 17, m 18] := rfl
  rw [h19] at h
  obtain ⟨h, hnames⟩ := List.append_inj' h rfl
  obtain ⟨h, h12⟩ := List.append_inj' h (by simp)
  obtain ⟨h0, h8⟩ := List.append_inj' h (by simp)
  simp only [List.cons.injEq, and_true] at hnames
  obtain ⟨h16, h17, h18⟩ := hnames
  have hbyte (k : Nat) (hk : k < 256) : (UInt8.ofNat k).toNat = k := by
    rw [UInt8.toNat_ofNat', Nat.mod_eq_of_lt hk]
  have hstart : dataStart m = 19 + sb.length + eb.length + rn.length := by
    rw [dataStart, h16, h17, h18, hbyte _ hsb, hbyte _ heb, hbyte _ hrn]
  have hlength : dataLength m = UInt32.ofNat ds.length := (bytesToInt32_eq_iff m 12 _).mpr h12
  refine ⟨hstart, hlength, ?_⟩
  rw [doRunCall, hstart, hlength, h16, h17, h18, hbyte _ hsb, hbyte _ heb, hbyte _ hrn,
    (bytesToInt64_eq_iff m 0 address).mpr h0, (bytesToInt32_eq_iff m 8 length).mpr h8,
    UInt32.toNat_ofNat', Nat.mod_eq_of_lt hds, hs, Nat.add_comm sb.length 19, he,
    show sb.length + eb.length + 19 = 19 + sb.length + eb.length by omega, hr, hd]

/-- `p` is the DO_RUN layout of the arguments of a call, and its length the exact
sum of the lengths of the parts. -/
def Encodes (p : List UInt8) : HandlerCall → Prop
  | .handleDoRun startBreakpoint endBreakpoint address length dataLength data registerName =>
    19 + startBreakpoint.length + endBreakpoint.length + registerName.length + dataLength =
        p.length ∧
      p = be64 address ++ toBytes 4 length ++ toBytes 4 dataLength ++
        [UInt8.ofNat startBreakpoint.length, UInt8.ofNat endBreakpoint.length,
          UInt8.ofNat registerName.length] ++
        startBreakpoint ++ endBreakpoint ++ registerName ++ data
  | _ => False

theorem slice_header (m : Nat → UInt8) :
    slice m 0 19 = be64 (bytesToInt64 m 0).toUInt64 ++ be32 (bytesToInt32 m 8).toUInt32 ++
      be32 (dataLength m) ++ [m 16, m 17, m 18] := by
  have h0 : slice m 0 8 = be64 (bytesToInt64 m 0).toUInt64 := (bytesToInt64_eq_iff m 0 _).mp rfl
  have h8 : slice m 8 4 = be32 (bytesToInt32 m 8).toUInt32 := (bytesToInt32_eq_iff m 8 _).mp rfl
  have h12 : slice m 12 4 = be32 (dataLength m) := (bytesToInt32_eq_iff m 12 _).mp rfl
  rw [← h0, ← h8, ← h12]
  rfl

theorem encodes_of_sum (m : Nat → UInt8) (n : Nat) (hn : dataStart m + (dataLength m).toNat = n) :
    Encodes (slice m 0 n) (doRunCall m) := by
  have hs : n = 19 + (m 16).toNat + (m 17).toNat + (m 18).toNat + (dataLength m).toNat := by
    rw [← hn, dataStart]
  have h17 : (m 16).toNat + 19 = 19 + (m 16).toNat := Nat.add_comm _ _
  have h18 : (m 16).toNat + (m 17).toNat + 19 = 19 + (m 16).toNat + (m 17).toNat := by omega
  refine ⟨by simpa [dataStart] using hn, ?_⟩
  simp only [hs, slice_add, Nat.zero_add, slice_header, length_slice, UInt8.ofNat_toNat, h17, h18,
    dataStart]
  rfl

/-- Whatever the handler does: unless the answer is malformed, the handler was
called once, with arguments that the payload is the encoding of. -/
def ExactlyDecoded (v : σ) (p : Payload) : Prop :=
  ∀ (h : Handlers σ) (g : Indeterminate),
    let s := ((handleRequest h g (Request.of Command.doRun.toByte p)).run { state := v }).2
    s.res.responseStatus ≠ Status.malformed.toByte → ∃ c, s.calls = [c] ∧ Encodes p.bytes c

theorem decoded_of_not_wraps (v : σ) (p : Payload) (hw : ¬Wraps p) : ExactlyDecoded v p := by
  intro h g s hm
  have hs : s = _ := run_doRun h g p _
  split_ifs at hs with hl he
  · exact absurd (by rw [hs]; rfl) hm
  · exact absurd (by rw [hs]; rfl) hm
  · refine ⟨doRunCall (view p.bytes g.beyond), by rw [hs]; rfl, ?_⟩
    have hsum := not_wraps_sum hw (Nat.not_lt.mp hl) g.beyond (not_not.mp he)
    simpa using encodes_of_sum (view p.bytes g.beyond) _ hsum

/-- A wrapped sum passes both checks, and the call it leads to names more bytes
than the payload has. -/
theorem not_decoded_of_wraps (v : σ) (p : Payload) (hw : Wraps p) : ¬ExactlyDecoded v p := by
  intro hp
  obtain ⟨hsum, he⟩ := hw.sum_passes Indeterminate.zero.beyond
  have hd := hp (silent σ) Indeterminate.zero
  simp only [run_doRun, if_neg (Nat.not_lt.mpr hw.1), if_neg (not_not.mpr he)] at hd
  obtain ⟨c, hc, hexact⟩ := hd (by simp [silent, Status.toByte])
  obtain rfl : doRunCall (view p.bytes Indeterminate.zero.beyond) = c := by
    simpa [touchSlices, touchHeader] using hc
  have hlength := hexact.1
  simp only [length_slice] at hlength
  unfold dataStart at hsum
  omega

/-- DO_RUN accepts exactly its own format but for the payloads whose announced
length wraps. -/
theorem exactlyDecoded_iff (v : σ) (p : Payload) : ExactlyDecoded v p ↔ ¬Wraps p :=
  ⟨fun hp hw => not_decoded_of_wraps v p hw hp, decoded_of_not_wraps v p⟩

/-- A start name of 255 bytes and a data length of `2 ^ 32 - 254` are accepted in
a payload of 20 bytes. -/
def wrappingPayload : Payload :=
  ⟨[0, 0, 0, 0, 0, 0, 0, 0, 0, 0, 0, 0, 0xFF, 0xFF, 0xFF, 2, 255, 0, 0, 65], by decide⟩

theorem wrappingPayload_not_decoded : ¬ExactlyDecoded () wrappingPayload :=
  not_decoded_of_wraps () wrappingPayload (by decide)

end VpTesting.DoRun

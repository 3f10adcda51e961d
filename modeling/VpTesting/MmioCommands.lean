import VpTesting.DoRun

namespace VpTesting.MmioCommands

open VpTesting.ByteMemory VpTesting.Types VpTesting.TestingCommunication VpTesting.HandlerCalls
  VpTesting.HandleRequest VpTesting.DoRun

variable {σ : Type}

/-- MMIO data to inject, at least one byte. -/
abbrev Data := { bytes : List UInt8 // bytes ≠ [] }

/-- A name whose length is announced in one byte. -/
abbrev ShortName := { bytes : List UInt8 // bytes.length < 256 }

/-- Fixed reads, as many as one byte counts: the address and the value of each. -/
abbrev Entries := { entries : List (UInt64 × UInt8) // entries ≠ [] ∧ entries.length < 256 }

def entryBytes (entries : List (UInt64 × UInt8)) : List UInt8 :=
  entries.flatMap (fun e => be64 e.1 ++ [e.2])

theorem length_entryBytes (entries : List (UInt64 × UInt8)) :
    (entryBytes entries).length = entries.length * 9 := by
  simp [entryBytes, List.length_flatMap]

inductive Mmio
  | setMmioValue (data : Data)
  | addToMmioReadQueue (address : UInt64) (length : UInt32) (data : Data)
  | doRun (startBreakpoint endBreakpoint : ShortName) (address : UInt64) (length : UInt32)
      (data : Data) (registerName : ShortName)
  | setFixedRead (entries : Entries)

namespace Mmio

def command : Mmio → Command
  | setMmioValue .. => .setMmioValue
  | addToMmioReadQueue .. => .addToMmioReadQueue
  | doRun .. => .doRun
  | setFixedRead .. => .setFixedRead

def layout : Mmio → List UInt8
  | setMmioValue data => data.1
  | addToMmioReadQueue address length data =>
    be64 address ++ be32 length ++ be32 (UInt32.ofNat data.1.length) ++ data.1
  | doRun startBreakpoint endBreakpoint address length data registerName =>
    be64 address ++ be32 length ++ be32 (UInt32.ofNat data.1.length) ++
      [UInt8.ofNat startBreakpoint.1.length, UInt8.ofNat endBreakpoint.1.length,
        UInt8.ofNat registerName.1.length] ++
      startBreakpoint.1 ++ endBreakpoint.1 ++ registerName.1 ++ data.1
  | setFixedRead entries => [UInt8.ofNat entries.1.length] ++ entryBytes entries.1

def call : Mmio → HandlerCall
  | setMmioValue data => .handleSetMmioValue data.1.length data.1
  | addToMmioReadQueue address length data =>
    .handleAddToMmioReadQueue address length.toNat data.1.length data.1
  | doRun startBreakpoint endBreakpoint address length data registerName =>
    .handleDoRun startBreakpoint.1 endBreakpoint.1 address length.toNat data.1.length data.1
      registerName.1
  | setFixedRead entries => .handleSetFixedRead entries.1.length (entryBytes entries.1)

end Mmio

structure MmioRequest where
  mmio : Mmio
  layout_lt : mmio.layout.length < 2 ^ 32

def MmioRequest.request (r : MmioRequest) : Request :=
  Request.of r.mmio.command.toByte ⟨r.mmio.layout, r.layout_lt⟩

theorem callsFor_addToMmioReadQueue (h : Handlers σ) (g : Indeterminate) (v : σ)
    (address : UInt64) (length : UInt32) (data : Data)
    (hlt : (Mmio.addToMmioReadQueue address length data).layout.length < 2 ^ 32) :
    callsFor h g v (MmioRequest.request ⟨.addToMmioReadQueue address length data, hlt⟩) =
      [(Mmio.addToMmioReadQueue address length data).call] := by
  have hlen : 8 + (4 + (4 + data.1.length)) < 4294967296 := by simpa [Mmio.layout] using hlt
  have hpos := List.length_pos_iff.mpr data.2
  have hl : ¬8 + (4 + (4 + data.1.length)) < 17 := by omega
  have hd : data.1.length % 4294967296 = data.1.length := Nat.mod_eq_of_lt (by omega)
  have he : (16 + data.1.length) % 4294967296 = 8 + (4 + (4 + data.1.length)) := by omega
  have h0 := bytesToInt64_be64 [] (be32 length ++ be32 (UInt32.ofNat data.1.length) ++ data.1)
    address g.beyond
  have h8 := bytesToInt32_be32 (be64 address) (be32 (UInt32.ofNat data.1.length) ++ data.1) length
    g.beyond
  have h12 := bytesToInt32_be32 (be64 address ++ be32 length) data.1
    (UInt32.ofNat data.1.length) g.beyond
  have h16 := slice_view_append (be64 address ++ be32 length ++ be32 (UInt32.ofNat data.1.length))
    data.1 [] g.beyond
  simp only [List.nil_append, List.length_nil, List.append_assoc, List.append_nil, length_be64,
    length_be32, List.length_append, Nat.reduceAdd] at h0 h8 h12 h16
  simp [callsFor, MmioRequest.request, handleRequest, Mmio.command, Mmio.layout, Mmio.call, hl,
    hd, he, h0, h8, h12, h16]

theorem callsFor_setFixedRead (h : Handlers σ) (g : Indeterminate) (v : σ) (entries : Entries)
    (hlt : (Mmio.setFixedRead entries).layout.length < 2 ^ 32) :
    callsFor h g v (MmioRequest.request ⟨.setFixedRead entries, hlt⟩) =
      [(Mmio.setFixedRead entries).call] := by
  have hcount : (UInt8.ofNat entries.1.length).toNat = entries.1.length := by
    rw [UInt8.toNat_ofNat', Nat.mod_eq_of_lt entries.2.2]
  have hpos := List.length_pos_iff.mpr entries.2.1
  have hl : ¬entries.1.length * 9 + 1 < 10 := by omega
  have h0 := view_append [] (entryBytes entries.1) (UInt8.ofNat entries.1.length) g.beyond
  have h1 := slice_view_append [UInt8.ofNat entries.1.length] (entryBytes entries.1) [] g.beyond
  simp only [List.nil_append, List.length_nil, List.append_nil, List.length_singleton,
    length_entryBytes, List.singleton_append] at h0 h1
  simp [callsFor, MmioRequest.request, handleRequest, Mmio.command, Mmio.layout, Mmio.call, hl,
    h0, h1, hcount, length_entryBytes, Nat.add_comm 1]

/-- A payload in the layout of DO_RUN is decoded into the parts of the layout. -/
theorem calls_doRun (h : Handlers σ) (g : Indeterminate) (v : σ) (p : Payload) (address : UInt64)
    (length : UInt32) (sb eb rn ds : List UInt8) (hsb : sb.length < 256) (heb : eb.length < 256)
    (hrn : rn.length < 256) (hds : ds ≠ [])
    (hp : p.bytes = be64 address ++ be32 length ++ be32 (UInt32.ofNat ds.length) ++
      [UInt8.ofNat sb.length, UInt8.ofNat eb.length, UInt8.ofNat rn.length] ++
      sb ++ eb ++ rn ++ ds) :
    callsFor h g v (Request.of Command.doRun.toByte p) =
      [.handleDoRun sb eb address length.toNat ds.length ds rn] := by
  have hpos := List.length_pos_iff.mpr hds
  have hlt := p.bytes_lt
  have hn : p.bytes.length = 19 + sb.length + eb.length + rn.length + ds.length := by
    simp only [hp, List.length_append, length_be64, length_be32, List.length_cons,
      List.length_nil]
  have hs : slice (view p.bytes g.beyond) 0 (19 + sb.length + eb.length + rn.length + ds.length) =
      be64 address ++ be32 length ++ be32 (UInt32.ofNat ds.length) ++
        [UInt8.ofNat sb.length, UInt8.ofNat eb.length, UInt8.ofNat rn.length] ++
        sb ++ eb ++ rn ++ ds := by
    rw [← hn, slice_view_all, hp]
  obtain ⟨hstart, hlength, hcall⟩ := doRunCall_of_slice (view p.bytes g.beyond) address length
    sb eb rn ds hsb heb hrn (by omega) hs
  have hsum : p.bytes.length = (UInt32.ofNat (dataStart (view p.bytes g.beyond)) +
      dataLength (view p.bytes g.beyond)).toNat := by
    rw [hstart, hlength, UInt32.toNat_add, UInt32.toNat_ofNat', UInt32.toNat_ofNat', hn]
    omega
  rw [callsFor, run_doRun, if_neg (by omega), if_neg (not_not.mpr hsum), hcall]
  simp only [touchSlices, touchHeader, Handling.setData_calls, Handling.call_calls,
    Handling.touch_calls, List.nil_append]

theorem callsFor_doRun (h : Handlers σ) (g : Indeterminate) (v : σ)
    (startBreakpoint endBreakpoint : ShortName) (address : UInt64) (length : UInt32) (data : Data)
    (registerName : ShortName) (hlt : (Mmio.doRun startBreakpoint endBreakpoint address length
      data registerName).layout.length < 2 ^ 32) :
    callsFor h g v (MmioRequest.request
      ⟨.doRun startBreakpoint endBreakpoint address length data registerName, hlt⟩) =
      [(Mmio.doRun startBreakpoint endBreakpoint address length data registerName).call] := by
  exact calls_doRun h g v ⟨_, hlt⟩ address length startBreakpoint.1 endBreakpoint.1
    registerName.1 data.1 startBreakpoint.2 endBreakpoint.2 registerName.2 data.2 rfl

/-- The length passed to SET_MMIO_VALUE is that of the response, which is empty. -/
theorem callsFor_setMmioValue (h : Handlers σ) (g : Indeterminate) (v : σ) (r : MmioRequest)
    (data : Data) (hr : r.mmio = .setMmioValue data) :
    callsFor h g v r.request ≠ [r.mmio.call] := by
  obtain ⟨mmio, hlt⟩ := r
  subst hr
  intro he
  simp [callsFor, MmioRequest.request, handleRequest, Mmio.command, Mmio.layout, Mmio.call,
    data.2] at he

/-- The data arrive whole for every command but SET_MMIO_VALUE. -/
theorem callsFor_mmio_iff (h : Handlers σ) (g : Indeterminate) (v : σ) (r : MmioRequest) :
    callsFor h g v r.request = [r.mmio.call] ↔ ∀ data, r.mmio ≠ .setMmioValue data := by
  refine ⟨fun he data hr => callsFor_setMmioValue h g v r data hr he, fun hr => ?_⟩
  obtain ⟨mmio, hlt⟩ := r
  cases mmio with
  | setMmioValue data => exact absurd rfl (hr data)
  | addToMmioReadQueue address length data =>
    exact callsFor_addToMmioReadQueue h g v address length data hlt
  | doRun startBreakpoint endBreakpoint address length data registerName =>
    exact callsFor_doRun h g v startBreakpoint endBreakpoint address length data registerName hlt
  | setFixedRead entries => exact callsFor_setFixedRead h g v entries hlt

/-- Two bytes to inject, of which the handler gets none. -/
def setValueRequest : MmioRequest := ⟨.setMmioValue ⟨[17, 34], by decide⟩, by decide⟩

theorem setValueRequest_calls :
    callsFor (silent Unit) Indeterminate.zero () setValueRequest.request ≠
      [setValueRequest.mmio.call] :=
  callsFor_setMmioValue (silent Unit) Indeterminate.zero () setValueRequest
    ⟨[17, 34], by decide⟩ rfl

end VpTesting.MmioCommands

import VpTesting.Fifo
import VpTesting.HandlerOutput
import VpTesting.TestingReceiver

namespace VpTesting.EventDelivery

open VpTesting.ByteMemory VpTesting.Types VpTesting.TestingCommunication VpTesting.HandlerCalls
  VpTesting.HandleRequest VpTesting.HandlerOutput VpTesting.TestingReceiver VpTesting.Fifo

/-- MMIO data that fit the additional data of an event, and its event a response. -/
abbrev WriteData := { bytes : List UInt8 // 13 + bytes.length < 2 ^ 32 }

theorem WriteData.toNat_length (data : WriteData) :
    (UInt32.ofNat data.1.length).toNat = data.1.length := by
  have hlt := data.2
  rw [UInt32.toNat_ofNat', Nat.mod_eq_of_lt (by omega)]

theorem WriteData.toNat_size (data : WriteData) :
    (12 + UInt32.ofNat data.1.length).toNat = 12 + data.1.length := by
  have hlt := data.2
  rw [UInt32.toNat_add, WriteData.toNat_length]
  exact Nat.mod_eq_of_lt (by simp; omega)

inductive Notification
  | mmioRead (address : UInt64) (length : UInt32)
  | mmioWrite (address : UInt64) (data : WriteData)
  | vpEnd
  | breakpointHit (symbolName : List UInt8)
  | vpError

namespace Notification

def notify (r : Receiver) : Notification → Receiver
  | mmioRead address length => r.notifyMmioReadEvent address length
  | mmioWrite address data => r.notifyMmioWriteEvent address (UInt32.ofNat data.1.length) data.1
  | vpEnd => r.notifyVpEndEvent
  | breakpointHit symbolName => r.notifyBreakpointHitEvent symbolName
  | vpError => (Receiver.notifyVpErrorEvent (some r)).getD r

/-- The event a notification appends to the queue. -/
def event : Notification → Event
  | mmioRead address length =>
    ⟨EventType.mmioRead.toByte, some (be64 address ++ be32 length), 12⟩
  | mmioWrite address data =>
    ⟨EventType.mmioRead.toByte,
      some (be64 address ++ be32 (UInt32.ofNat data.1.length) ++ data.1),
      12 + UInt32.ofNat data.1.length⟩
  | vpEnd => ⟨EventType.vpEnd.toByte, none, 0⟩
  | breakpointHit symbolName =>
    ⟨EventType.breakpointHit.toByte, some (symbolName ++ [0]), UInt32.ofNat symbolName.length + 1⟩
  | vpError => ⟨EventType.vpError.toByte, none, 0⟩

end Notification

/-- Address and length fill the first twelve bytes of a buffer. -/
theorem header_written (address : UInt64) (length : UInt32) (rest : List UInt8) :
    int32ToBytes length.toInt32
      (int64ToBytes address.toInt64 (List.replicate 12 0 ++ rest) 0) 8 =
      be64 address ++ be32 length ++ rest := by
  have h0 := int64ToBytes_append address.toInt64 [] (List.replicate 8 0)
    (List.replicate 4 0 ++ rest) (by simp)
  have h8 := int32ToBytes_append length.toInt32 (be64 address) (List.replicate 4 0) rest (by simp)
  have hr : List.replicate 12 (0 : UInt8) = List.replicate 8 0 ++ List.replicate 4 0 := rfl
  simp only [List.nil_append, List.length_nil, UInt64.toUInt64_toInt64] at h0
  simp only [length_be64, UInt32.toUInt32_toInt32] at h8
  rw [hr, List.append_assoc, h0, ← List.append_assoc, h8]

theorem header_and_data_written (address : UInt64) (data : List UInt8) (length : UInt32) :
    store (int32ToBytes length.toInt32
      (int64ToBytes address.toInt64 (List.replicate (12 + data.length) 0) 0) 8) 12 data =
      be64 address ++ be32 length ++ data := by
  have hs := store_append (be64 address ++ be32 length) (List.replicate data.length 0) [] data
    (by simp)
  simp only [List.append_nil, List.length_append, length_be64, length_be32] at hs
  rw [List.replicate_add, header_written, hs]

theorem name_written (symbolName : List UInt8) :
    (store (List.replicate (symbolName.length + 1) 0) 0 symbolName).set symbolName.length 0 =
      symbolName ++ [0] := by
  have hs := store_append [] (List.replicate symbolName.length 0) [0] symbolName (by simp)
  simp only [List.nil_append, List.length_nil] at hs
  rw [List.replicate_succ', hs]
  simp

/-- Each notification does what it is for: it appends its event to the queue. -/
theorem notify_eq (r : Receiver) (n : Notification) : n.notify r = r.notifyEvent n.event := by
  cases n with
  | mmioRead address length =>
    have hw := header_written address length []
    simp only [List.append_nil] at hw
    simp only [Notification.notify, Receiver.notifyMmioReadEvent, Notification.event, hw]
  | mmioWrite address data =>
    simp only [Notification.notify, Receiver.notifyMmioWriteEvent, Notification.event,
      WriteData.toNat_length, WriteData.toNat_size, List.take_length, header_and_data_written]
  | vpEnd => rfl
  | breakpointHit symbolName =>
    simp only [Notification.notify, Receiver.notifyBreakpointHitEvent, Notification.event,
      name_written]
  | vpError => rfl

namespace Notification

def kind : Notification → EventType
  | mmioRead .. => .mmioRead
  | mmioWrite .. => .mmioWrite
  | vpEnd => .vpEnd
  | breakpointHit .. => .breakpointHit
  | vpError => .vpError

def arguments : Notification → List UInt8
  | mmioRead address length => be64 address ++ be32 length
  | mmioWrite address data => be64 address ++ be32 (UInt32.ofNat data.1.length) ++ data.1
  | breakpointHit symbolName => symbolName ++ [0]
  | vpEnd | vpError => []

/-- The documented data of the CONTINUE response that returns the event. -/
def documented (n : Notification) : List UInt8 := n.kind.toByte :: n.arguments

end Notification

def decodeArguments (data : List UInt8) : EventType → Option Notification
  | .mmioRead =>
    let m := view data (fun _ => 0)
    if 12 ≤ data.length then
      some (.mmioRead (bytesToInt64 m 0).toUInt64 (bytesToInt32 m 8).toUInt32)
    else none
  | .mmioWrite =>
    let m := view data (fun _ => 0)
    if h : data.length = 12 + (bytesToInt32 m 8).toUInt32.toNat ∧ 1 + data.length < 2 ^ 32 then
      some (.mmioWrite (bytesToInt64 m 0).toUInt64 ⟨data.drop 12, by simp; omega⟩)
    else none
  | .vpEnd => if data = [] then some .vpEnd else none
  | .breakpointHit =>
    if data.getLast? = some 0 then some (.breakpointHit data.dropLast) else none
  | .vpError => if data = [] then some .vpError else none
  | .errorSymbolHit => none

/-- Response data read by the rules of the command table. -/
def decode : List UInt8 → Option Notification
  | [] => none
  | eventType :: data => (EventType.ofByte eventType).bind (decodeArguments data)

theorem decode_documented (n : Notification) : decode n.documented = some n := by
  cases n with
  | mmioRead address length =>
    have h0 := bytesToInt64_be64 [] (be32 length) address (fun _ => 0)
    have h8 := bytesToInt32_be32 (be64 address) [] length (fun _ => 0)
    simp only [List.nil_append, List.length_nil, List.append_nil, length_be64] at h0 h8
    simp [Notification.documented, Notification.kind, Notification.arguments, decode,
      decodeArguments, h0, h8]
  | mmioWrite address data =>
    have hlength := WriteData.toNat_length data
    obtain ⟨bytes, hlt⟩ := data
    have h0 := bytesToInt64_be64 [] (be32 (UInt32.ofNat bytes.length) ++ bytes) address (fun _ => 0)
    have h8 := bytesToInt32_be32 (be64 address) bytes (UInt32.ofNat bytes.length) (fun _ => 0)
    simp only [List.nil_append, List.length_nil, List.append_assoc, length_be64] at h0 h8
    have hdrop : (be64 address ++ (be32 (UInt32.ofNat bytes.length) ++ bytes)).drop 12 = bytes := by
      rw [← List.append_assoc]
      exact List.drop_left' (by simp)
    have hn : 8 + (4 + bytes.length) = 12 + bytes.length := by omega
    have hl : 1 + (12 + bytes.length) < 4294967296 := by omega
    simp [Notification.documented, Notification.kind, Notification.arguments, decode,
      decodeArguments, h0, h8, hlength, hdrop, hn, hl]
  | vpEnd => rfl
  | breakpointHit symbolName =>
    simp [Notification.documented, Notification.kind, Notification.arguments, decode,
      decodeArguments]
  | vpError => rfl

theorem decodeArguments_kind {data : List UInt8} {e : EventType} {n : Notification}
    (h : decodeArguments data e = some n) : n.kind = e := by
  cases e with
  | mmioRead | mmioWrite | vpEnd | breakpointHit | vpError =>
    simp only [decodeArguments] at h
    split at h
    · cases h
      rfl
    · cases h
  | errorSymbolHit => cases h

theorem decode_kind {eventType : UInt8} {data : List UInt8} {n : Notification}
    (h : decode (eventType :: data) = some n) : eventType = n.kind.toByte := by
  obtain ⟨e, he, hn⟩ := Option.bind_eq_some_iff.mp h
  rw [EventType.toByte_of_ofByte he, decodeArguments_kind hn]

/-- A name that was decoded makes up the whole response, but for two bytes. -/
theorem decode_breakpointHit_length {data symbolName : List UInt8}
    (h : decode data = some (.breakpointHit symbolName)) : data.length = symbolName.length + 2 := by
  cases data with
  | nil => cases h
  | cons eventType data =>
    obtain ⟨e, he, hn⟩ := Option.bind_eq_some_iff.mp h
    obtain rfl : EventType.breakpointHit = e := decodeArguments_kind hn
    unfold decodeArguments at hn
    simp only at hn
    split at hn
    · next hlast =>
      cases hn
      have hne : data ≠ [] := by
        rintro rfl
        cases hlast
      have hpos := List.length_pos_iff.mpr hne
      rw [List.length_cons, List.length_dropLast]
      omega
    · cases hn

/-- The notifications whose event is built with their own type, and whose response
has room for the arguments. -/
def Deliverable : Notification → Prop
  | .mmioWrite .. => False
  | .breakpointHit symbolName => symbolName.length + 2 < 2 ^ 32
  | .mmioRead .. | .vpEnd | .vpError => True

theorem length_continueData (e : Event) : (continueData e).length < 2 ^ 32 := by
  rw [continueData, length_store, List.length_set, List.length_replicate]
  exact UInt32.toNat_lt _

theorem continueData_event (e : Event) (data : List UInt8) (hd : e.additionData.getD [] = data)
    (hlength : data.length = e.additionalDataLength.toNat) (hlt : data.length < 2 ^ 32 - 1) :
    continueData e = e.event :: data := by
  subst hd
  have hp : eventData e = some ⟨_, _⟩ := dif_pos ⟨hlength.ge, hlength ▸ hlt⟩
  exact (continueData_eq hp).trans (congrArg (e.event :: ·) (List.take_of_length_le hlength.le))

theorem continueData_eq_documented (n : Notification) (hn : Deliverable n) :
    continueData n.event = n.documented := by
  cases n with
  | mmioRead address length =>
    exact continueData_event _ (be64 address ++ be32 length) rfl (by simp; rfl) (by simp)
  | mmioWrite address data => cases hn
  | vpEnd => rfl
  | breakpointHit symbolName =>
    have hlt : symbolName.length + 2 < 2 ^ 32 := hn
    have hlength : (symbolName ++ [0]).length = (UInt32.ofNat symbolName.length + 1).toNat := by
      rw [UInt32.toNat_add, UInt32.toNat_ofNat', UInt32.toNat_one, List.length_append,
        List.length_singleton]
      omega
    have hshort : (symbolName ++ [0]).length < 2 ^ 32 - 1 := by
      rw [List.length_append, List.length_singleton]
      omega
    exact continueData_event _ (symbolName ++ [0]) rfl hlength hshort
  | vpError => rfl

/-- An MMIO_WRITE event arrives with the type of an MMIO_READ event. -/
theorem decode_mmioWrite_event (address : UInt64) (data : WriteData) :
    decode (continueData (Notification.mmioWrite address data).event) ≠
      some (.mmioWrite address data) := by
  have hlt := data.2
  have hshort : 12 + data.1.length < 2 ^ 32 - 1 := by omega
  have hn : (be64 address ++ be32 (UInt32.ofNat data.1.length) ++ data.1).length =
      12 + data.1.length := by
    simp
    omega
  have hlength : (be64 address ++ be32 (UInt32.ofNat data.1.length) ++ data.1).length =
      (12 + UInt32.ofNat data.1.length).toNat := by
    rw [hn, WriteData.toNat_size]
  rw [continueData_event (Notification.mmioWrite address data).event _ rfl hlength
    (hn ▸ hshort)]
  intro hd
  have hkind : EventType.mmioRead.toByte = EventType.mmioWrite.toByte := decode_kind hd
  exact absurd hkind (by decide)

theorem decode_event_iff (n : Notification) :
    decode (continueData n.event) = some n ↔ Deliverable n := by
  constructor
  · intro hd
    cases n with
    | mmioRead address length => trivial
    | mmioWrite address data => exact absurd hd (decode_mmioWrite_event address data)
    | vpEnd => trivial
    | breakpointHit symbolName =>
      have hlength := decode_breakpointHit_length hd
      have hlt := length_continueData (Notification.breakpointHit symbolName).event
      unfold Deliverable
      omega
    | vpError => trivial
  · intro hn
    rw [continueData_eq_documented n hn, decode_documented]

variable {τ : Type}

/-- `handle_continue` as it is declared: it writes the first event of the queue to
its parameter and removes it. Beside the receiver it may change the state `τ` of the
class that implements it. -/
def ContinueContract (h : Handlers (Receiver × τ)) : Prop :=
  ∀ lastEvent v e r, v.1.getAndRemoveFirstEvent = some (e, r) →
    (h (.handleContinue lastEvent) v).out = e ∧
      (h (.handleContinue lastEvent) v).state.1.mEventQueue = r.mEventQueue

def continueRequest : Request := { requestCommand := Command.toByte .«continue» }

/-- Runs of a receiver, with the notifications made and the CONTINUE responses given
so far. A CONTINUE is answered once there is an event. -/
inductive Run (h : Handlers (Receiver × τ)) (v : Receiver × τ) :
    List Notification → List Response → Receiver × τ → Prop
  | start : Run h v [] [] v
  | notify {ns rs v'} (n : Notification) :
    Run h v ns rs v' → Run h v (ns ++ [n]) rs (n.notify v'.1, v'.2)
  | simulate {ns rs v'} (own : τ) : Run h v ns rs v' → Run h v ns rs (v'.1, own)
  | «continue» {ns rs v'} (g : Indeterminate) :
    Run h v ns rs v' → v'.1.mEventQueue ≠ [] →
    Run h v ns (rs ++ [((handleRequest h g continueRequest).run { state := v' }).2.res])
      ((handleRequest h g continueRequest).run { state := v' }).2.state

variable {h : Handlers (Receiver × τ)} {v v' : Receiver × τ} {ns : List Notification}
  {rs : List Response}

theorem state_continue (h : Handlers (Receiver × τ)) (g : Indeterminate) (v : Receiver × τ) :
    ((handleRequest h g continueRequest).run { state := v }).2.state =
      (h (.handleContinue { event := g.eventType }) v).state := by
  simp [handleRequest, continueRequest]

theorem data_continue (hc : ContinueContract h) (g : Indeterminate) {e : Event} {r : Receiver}
    (he : v.1.getAndRemoveFirstEvent = some (e, r)) :
    ((handleRequest h g continueRequest).run { state := v }).2.res.data = some (continueData e) :=
  congrArg Response.data (answer_continue h g v e (hc _ v e r he).1)

/-- The queue holds the events of the notifications that were not returned yet. -/
theorem Run.conserved (hc : ContinueContract h) (hq : v.1.mEventQueue = [])
    (hr : Run h v ns rs v') :
    ∃ taken, Conserved (ns.map Notification.event) taken v'.1.mEventQueue ∧
      rs.map Response.data = taken.map (fun e => some (continueData e)) := by
  induction hr with
  | start => exact ⟨[], by rw [hq]; exact Conserved.empty, rfl⟩
  | notify n hr ih =>
    obtain ⟨taken, hconserved, hdata⟩ := ih
    refine ⟨taken, ?_, hdata⟩
    rw [notify_eq, List.map_append]
    exact hconserved.push n.event
  | simulate own hr ih => exact ih
  | @«continue» ns rs v' g hr hne ih =>
    obtain ⟨taken, hconserved, hdata⟩ := ih
    obtain ⟨e, queue, hqueue⟩ := List.exists_cons_of_ne_nil hne
    have he : v'.1.getAndRemoveFirstEvent = some (e, { v'.1 with mEventQueue := queue }) := by
      rw [Receiver.getAndRemoveFirstEvent, hqueue]
    refine ⟨taken ++ [e], ?_, ?_⟩
    · rw [state_continue, (hc _ v' e _ he).2]
      rw [hqueue] at hconserved
      exact hconserved.pop
    · rw [List.map_append, List.map_append, hdata]
      simp [data_continue hc g he]

/-- The responses carry the events of the first notifications, in their order. -/
theorem Run.responses (hc : ContinueContract h) (hq : v.1.mEventQueue = [])
    (hr : Run h v ns rs v') :
    rs.map Response.data =
      (ns.take rs.length).map (fun n => some (continueData n.event)) := by
  obtain ⟨taken, hconserved, hdata⟩ := hr.conserved hc hq
  have hlength : rs.length = taken.length := by simpa using congrArg List.length hdata
  rw [hdata, hconserved.taken_eq, hlength, ← List.map_take, List.map_map]
  rfl

def received (res : Response) : Option Notification := decode (res.data.getD [])

theorem Run.received_eq (hc : ContinueContract h) (hq : v.1.mEventQueue = [])
    (hr : Run h v ns rs v') :
    rs.map received = (ns.take rs.length).map (fun n => decode (continueData n.event)) := by
  have hdata := congrArg (List.map (fun d => decode (d.getD []))) (hr.responses hc hq)
  rw [List.map_map, List.map_map] at hdata
  exact hdata

/-- In every run, the responses are the notifications in their order if and only if
all those returned are deliverable. -/
theorem received_iff (hc : ContinueContract h) (hq : v.1.mEventQueue = [])
    (hr : Run h v ns rs v') :
    rs.map received = (ns.take rs.length).map some ↔ ∀ n ∈ ns.take rs.length, Deliverable n := by
  rw [hr.received_eq hc hq, List.map_inj_left]
  exact forall₂_congr fun n _ => decode_event_iff n

/-- A class with nothing of its own but a `handle_continue`. -/
def queueHandlers : Handlers (Receiver × Unit)
  | .handleContinue lastEvent, v =>
    match v.1.getAndRemoveFirstEvent with
    | some (e, r) => ⟨.ok, e, (r, v.2)⟩
    | none => ⟨.error, lastEvent, v⟩
  | c, v => silent (Receiver × Unit) c v

theorem queueHandlers_contract : ContinueContract queueHandlers := by
  intro lastEvent v e r he
  simp [queueHandlers, he]

def freshReceiver : Receiver × Unit := ({ mBbArray := fun _ => 0 }, ())

/-- One notification, then one CONTINUE. -/
theorem run_single (n : Notification) :
    Run queueHandlers freshReceiver [n]
      [((handleRequest queueHandlers Indeterminate.zero continueRequest).run
        { state := (n.notify freshReceiver.1, ()) }).2.res]
      ((handleRequest queueHandlers Indeterminate.zero continueRequest).run
        { state := (n.notify freshReceiver.1, ()) }).2.state := by
  refine Run.continue Indeterminate.zero (Run.notify n Run.start) ?_
  rw [notify_eq]
  exact List.cons_ne_nil _ _

/-- An address, a name and the end are notified, the end after a first CONTINUE, and come back by
three CONTINUEs. -/
theorem three_received :
    ∃ rs v', rs.length = 3 ∧
      Run queueHandlers freshReceiver [.mmioRead 16 4, .breakpointHit [65, 66], .vpEnd] rs v' ∧
        rs.map received = [.mmioRead 16 4, .breakpointHit [65, 66], .vpEnd].map some := by
  have hnotified : Run queueHandlers freshReceiver [.mmioRead 16 4, .breakpointHit [65, 66]] [] _ :=
    .notify _ (.notify _ .start)
  have hfirst := hnotified.continue Indeterminate.zero (List.cons_ne_nil _ _)
  have hended := hfirst.notify .vpEnd
  have hsecond := hended.continue Indeterminate.zero (List.cons_ne_nil _ _)
  have hthird := hsecond.continue Indeterminate.zero (List.cons_ne_nil _ _)
  exact ⟨_, _, rfl, hthird,
    (received_iff queueHandlers_contract rfl hthird).mpr (by simp [Deliverable])⟩

/-- A write of the byte 7 to the address 16 is not reported as what it is. -/
theorem mmioWrite_misread :
    ∃ rs v', Run queueHandlers freshReceiver [.mmioWrite 16 ⟨[7], by decide⟩] rs v' ∧
      rs.map received ≠ [some (.mmioWrite 16 ⟨[7], by decide⟩)] := by
  refine ⟨_, _, run_single _, ?_⟩
  rw [(run_single _).received_eq queueHandlers_contract rfl]
  intro he
  exact decode_mmioWrite_event 16 ⟨[7], by decide⟩ (List.cons.inj he).1

end VpTesting.EventDelivery

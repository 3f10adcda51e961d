import VpTesting.HandleRequest

namespace VpTesting.DataCommands

open VpTesting.BigEndian VpTesting.ByteMemory VpTesting.Types VpTesting.TestingCommunication
  VpTesting.HandlerCalls VpTesting.StateRules VpTesting.HandleRequest

variable {σ : Type}

/-- The commands whose payload holds the lengths of its parts, but for DO_RUN. -/
inductive DataCommand
  | addToMmioReadQueue | setFixedRead | doRunShm
  deriving DecidableEq

/-- The number in a field of a payload. -/
def field (bytes : List UInt8) (start width : Nat) : Nat :=
  ofBytes ((bytes.drop start).take width)

namespace DataCommand

def command : DataCommand → Command
  | addToMmioReadQueue => .addToMmioReadQueue
  | setFixedRead => .setFixedRead
  | doRunShm => .doRunShm

def minLength : DataCommand → Nat
  | addToMmioReadQueue => 17
  | setFixedRead => 10
  | doRunShm => 25

/-- The length that the fields of a payload announce for it. -/
def exactLength (bytes : List UInt8) : DataCommand → Nat
  | addToMmioReadQueue => 16 + field bytes 12 4
  | setFixedRead => 1 + 9 * field bytes 0 1
  | doRunShm => 24 + field bytes 21 1 + field bytes 22 1 + field bytes 23 1

def Accepts (k : DataCommand) (bytes : List UInt8) : Prop :=
  k.minLength ≤ bytes.length ∧ bytes.length = k.exactLength bytes

instance (k : DataCommand) (bytes : List UInt8) : Decidable (k.Accepts bytes) :=
  inferInstanceAs (Decidable (_ ∧ _))

/-- The length that the second check compares with, as it is computed. -/
def checkedLength (m : Nat → UInt8) : DataCommand → Nat
  | addToMmioReadQueue => (16 + (bytesToInt32 m 12).toUInt32).toNat
  | setFixedRead => 1 + (m 0).toNat * 9
  | doRunShm => 24 + (m 21).toNat + (m 22).toNat + (m 23).toNat

/-- The same length, computed without a bound. -/
def fieldsLength (m : Nat → UInt8) : DataCommand → Nat
  | addToMmioReadQueue => 16 + (bytesToInt32 m 12).toUInt32.toNat
  | setFixedRead => 1 + (m 0).toNat * 9
  | doRunShm => 24 + (m 21).toNat + (m 22).toNat + (m 23).toNat

/-- The handler call a payload leads to. -/
def call (m : Nat → UInt8) : DataCommand → HandlerCall
  | addToMmioReadQueue =>
    .handleAddToMmioReadQueue (bytesToInt64 m 0).toUInt64 (bytesToInt32 m 8).toUInt32.toNat
      (bytesToInt32 m 12).toUInt32.toNat (slice m 16 (bytesToInt32 m 12).toUInt32.toNat)
  | setFixedRead => .handleSetFixedRead (m 0).toNat (slice m 1 ((m 0).toNat * 9))
  | doRunShm =>
    .handleDoRunShm (slice m 24 (m 21).toNat) (slice m ((m 21).toNat + 24) (m 22).toNat)
      (bytesToInt64 m 0).toUInt64 (bytesToInt32 m 8).toUInt32.toNat
      (bytesToInt32 m 12).toUInt32.toInt32 (bytesToInt32 m 16).toUInt32 (m 20 != 0)
      (slice m ((m 21).toNat + (m 22).toNat + 24) (m 23).toNat)

/-- The arguments of a call of the command's handler, encoded in order. Of the option byte
of DO_RUN_SHM the handler is told only whether it is zero. -/
def Encodes (bytes : List UInt8) : DataCommand → HandlerCall → Prop
  | addToMmioReadQueue, .handleAddToMmioReadQueue address length dataLength data =>
    bytes = be64 address ++ toBytes 4 length ++ toBytes 4 dataLength ++ data
  | setFixedRead, .handleSetFixedRead count data => bytes = toBytes 1 count ++ data
  | doRunShm, .handleDoRunShm startBreakpoint endBreakpoint address length shmId offset stop
      registerName =>
    ∃ option : UInt8, (option != 0) = stop ∧
      bytes = be64 address ++ toBytes 4 length ++ be32 shmId.toUInt32 ++ be32 offset ++
        [option] ++ toBytes 1 startBreakpoint.length ++ toBytes 1 endBreakpoint.length ++
        toBytes 1 registerName.length ++ startBreakpoint ++ endBreakpoint ++ registerName
  | _, _ => False

end DataCommand

variable (h : Handlers σ) (g : Indeterminate) (v : σ) (p : Payload) (k : DataCommand)

/-- The state in which the handling of a request of the command ends. -/
def handled : Handling σ :=
  ((handleRequest h g (Request.of k.command.toByte p)).run { state := v }).2

/-- A payload that passes both checks as they are computed. -/
def Passes : Prop :=
  k.minLength ≤ p.bytes.length ∧ p.bytes.length = k.checkedLength (view p.bytes g.beyond)

theorem handled_of_not_passes (hp : ¬Passes g p k) :
    (handled h g v p k).calls = [] ∧
      (handled h g v p k).res.responseStatus = Status.malformed.toByte := by
  by_cases hl : p.bytes.length < k.minLength
  · cases k <;>
      simp only [DataCommand.minLength] at hl <;>
      simp [handled, DataCommand.command, handleRequest, hl, respondMalformed]
  · have he : p.bytes.length ≠ k.checkedLength (view p.bytes g.beyond) := fun he =>
      hp ⟨Nat.not_lt.mp hl, he⟩
    cases k <;>
      simp only [DataCommand.minLength, DataCommand.checkedLength] at hl he <;>
      simp only [handled, DataCommand.command, handleRequest, Request.of_requestCommand,
        Command.ofByte_toByte, Request.of_data, Request.of_dataLength, run_bind,
        run_checkMinRequestLength, run_readInt64, run_readInt32, run_readByte,
        run_checkExactRequestLength, run_pure, if_neg hl, if_pos he, if_true, if_false,
        Bool.false_eq_true] <;>
      exact ⟨rfl, rfl⟩

theorem handled_of_passes (hp : Passes g p k) :
    (handled h g v p k).calls = [k.call (view p.bytes g.beyond)] := by
  obtain ⟨hl, he⟩ := hp
  have hl := Nat.not_lt.mpr hl
  cases k <;>
    simp only [DataCommand.minLength, DataCommand.checkedLength] at hl he <;>
    simp only [handled, DataCommand.command, handleRequest, Request.of_requestCommand,
      Command.ofByte_toByte, Request.of_data, Request.of_dataLength, run_bind,
      run_checkMinRequestLength, run_readInt64, run_readInt32, run_readByte,
      run_checkExactRequestLength, run_readSlice, run_invokeWithoutData, if_neg hl,
      if_neg (not_not.mpr he), if_true] <;>
    rfl

section

variable {bytes : List UInt8} (beyond : Nat → UInt8) {start : Nat}

theorem field_four (hs : start + 4 ≤ bytes.length) :
    (bytesToInt32 (view bytes beyond) start).toUInt32.toNat = field bytes start 4 := by
  rw [bytesToInt32_toNat, slice_view bytes beyond start 4 hs, field]

theorem field_one (hs : start < bytes.length) :
    (view bytes beyond start).toNat = field bytes start 1 := by
  have hf : slice (view bytes beyond) start 1 = [view bytes beyond start] := rfl
  rw [field, ← slice_view bytes beyond start 1 hs, hf]
  have ha := ofBytes_append_singleton [] (view bytes beyond start)
  rw [ofBytes_nil, Nat.mul_zero, Nat.zero_add] at ha
  exact ha.symm

theorem fieldsLength_view (hl : k.minLength ≤ bytes.length) :
    k.fieldsLength (view bytes beyond) = k.exactLength bytes := by
  cases k with
  | addToMmioReadQueue =>
    have hm : 17 ≤ bytes.length := hl
    have h12 : (bytesToInt32 (view bytes beyond) 12).toUInt32.toNat = field bytes 12 4 :=
      field_four beyond (by omega)
    rw [DataCommand.fieldsLength, DataCommand.exactLength, h12]
  | setFixedRead =>
    have hm : 10 ≤ bytes.length := hl
    have h0 : (view bytes beyond 0).toNat = field bytes 0 1 := field_one beyond (by omega)
    rw [DataCommand.fieldsLength, DataCommand.exactLength, h0, Nat.mul_comm]
  | doRunShm =>
    have hm : 25 ≤ bytes.length := hl
    have h21 : (view bytes beyond 21).toNat = field bytes 21 1 := field_one beyond (by omega)
    have h22 : (view bytes beyond 22).toNat = field bytes 22 1 := field_one beyond (by omega)
    have h23 : (view bytes beyond 23).toNat = field bytes 23 1 := field_one beyond (by omega)
    rw [DataCommand.fieldsLength, DataCommand.exactLength, h21, h22, h23]

/-- From the minimal length on, the sum of the second check does not wrap. -/
theorem eq_checkedLength_iff {m : Nat → UInt8} {length : Nat} (hb : length < 2 ^ 32)
    (hl : k.minLength ≤ length) : length = k.checkedLength m ↔ length = k.fieldsLength m := by
  cases k with
  | addToMmioReadQueue =>
    have hm : 17 ≤ length := hl
    have hd := (bytesToInt32 m 12).toUInt32.toNat_lt
    have h16 : (16 : UInt32).toNat = 16 := rfl
    rw [DataCommand.checkedLength, DataCommand.fieldsLength, UInt32.toNat_add, h16]
    omega
  | setFixedRead | doRunShm => exact Iff.rfl

end

theorem passes_iff_accepts : Passes g p k ↔ k.Accepts p.bytes :=
  and_congr_right fun hl => by
    rw [eq_checkedLength_iff k p.bytes_lt hl, fieldsLength_view k g.beyond hl]

section

variable (m : Nat → UInt8)

theorem slice_int64 (start : Nat) : slice m start 8 = be64 (bytesToInt64 m start).toUInt64 :=
  (bytesToInt64_eq_iff m start _).mp rfl

theorem slice_int32 (start : Nat) : slice m start 4 = be32 (bytesToInt32 m start).toUInt32 :=
  (bytesToInt32_eq_iff m start _).mp rfl

theorem slice_byte (start : Nat) : slice m start 1 = toBytes 1 (m start).toNat := by
  rw [toBytes, UInt8.ofNat_toNat]
  rfl

theorem encodes_addToMmioReadQueue :
    DataCommand.addToMmioReadQueue.Encodes (slice m 0 (16 + (bytesToInt32 m 12).toUInt32.toNat))
      (DataCommand.addToMmioReadQueue.call m) := by
  have h16 : slice m 0 16 = slice m 0 8 ++ slice m 8 4 ++ slice m 12 4 := rfl
  rw [slice_add, h16, slice_int64, slice_int32, slice_int32, Nat.zero_add]
  rfl

theorem encodes_setFixedRead :
    DataCommand.setFixedRead.Encodes (slice m 0 (1 + (m 0).toNat * 9))
      (DataCommand.setFixedRead.call m) := by
  rw [slice_add, slice_byte, Nat.zero_add]
  rfl

theorem encodes_doRunShm :
    DataCommand.doRunShm.Encodes (slice m 0 (24 + (m 21).toNat + (m 22).toNat + (m 23).toNat))
      (DataCommand.doRunShm.call m) := by
  have h24 : slice m 0 24 = slice m 0 8 ++ slice m 8 4 ++ slice m 12 4 ++ slice m 16 4 ++ [m 20] ++
      slice m 21 1 ++ slice m 22 1 ++ slice m 23 1 := rfl
  have hs : (m 21).toNat + 24 = 24 + (m 21).toNat := Nat.add_comm _ _
  have he : (m 21).toNat + (m 22).toNat + 24 = 24 + (m 21).toNat + (m 22).toNat := by omega
  refine ⟨m 20, rfl, ?_⟩
  simp only [slice_add, Nat.zero_add, h24, slice_int64, slice_int32, slice_byte, length_slice, hs,
    he, UInt32.toUInt32_toInt32]
  rfl

theorem encodes_fields :
    k.Encodes (slice m 0 (k.fieldsLength m)) (k.call m) := by
  cases k with
  | addToMmioReadQueue => exact encodes_addToMmioReadQueue m
  | setFixedRead => exact encodes_setFixedRead m
  | doRunShm => exact encodes_doRunShm m

end

/-- An accepted payload is the encoding of what the handler is called with. -/
theorem encodes_call (hp : k.Accepts p.bytes) :
    k.Encodes p.bytes (k.call (view p.bytes g.beyond)) := by
  obtain ⟨hl, he⟩ := hp
  have hf := encodes_fields k (view p.bytes g.beyond)
  rwa [fieldsLength_view k g.beyond hl, ← he, slice_view_all] at hf

/-- The handler of a command is called exactly for the payloads of its format, with the
arguments that they are the encoding of. All others are answered as malformed. -/
theorem accepted_iff :
    if k.Accepts p.bytes then
      ∃ c, (handled h g v p k).calls = [c] ∧ k.Encodes p.bytes c
    else (handled h g v p k).calls = [] ∧
      (handled h g v p k).res.responseStatus = Status.malformed.toByte := by
  by_cases hp : k.Accepts p.bytes
  · rw [if_pos hp]
    have hc := handled_of_passes h g v p k ((passes_iff_accepts g p k).mpr hp)
    exact ⟨_, hc, encodes_call g p k hp⟩
  · rw [if_neg hp]
    exact handled_of_not_passes h g v p k fun hq => hp ((passes_iff_accepts g p k).mp hq)

/-- A DO_RUN_SHM payload with the name of a register and an option byte. -/
def shmPayload (option : UInt8) : Payload where
  bytes := List.replicate 20 0 ++ [option, 0, 0, 1, 65]
  bytes_lt := by simp

/-- No encoding of the arguments gives back both option bytes. -/
theorem shmPayload_not_encoded :
    ¬∃ encode : HandlerCall → List UInt8, ∀ option ∈ [1, 2], ∀ c,
      callsFor (silent Unit) Indeterminate.zero ()
        (Request.of Command.doRunShm.toByte (shmPayload option)) = [c] →
      encode c = (shmPayload option).bytes := by
  rintro ⟨encode, he⟩
  have h1 := he 1 (by decide) _ (handled_of_passes (silent Unit) Indeterminate.zero ()
    (shmPayload 1) .doRunShm ⟨by decide, by decide⟩)
  have h2 := he 2 (by decide) _ (handled_of_passes (silent Unit) Indeterminate.zero ()
    (shmPayload 2) .doRunShm ⟨by decide, by decide⟩)
  have hc : DataCommand.doRunShm.call (view (shmPayload 1).bytes Indeterminate.zero.beyond) =
      DataCommand.doRunShm.call (view (shmPayload 2).bytes Indeterminate.zero.beyond) := by decide
  rw [hc, h2] at h1
  exact absurd h1 (by decide)

end VpTesting.DataCommands

import Mathlib.Algebra.Group.Nat.Defs
import Mathlib.Data.List.Basic

namespace VpTesting.Types

def mqMaxLength : Nat := 256

def mqMaxMsg : Nat := 10

def pipeReadErrorMax : Nat := 5

inductive Command
  | «continue» | kill | setBreakpoint | removeBreakpoint | enableMmioTracking
  | disableMmioTracking | setMmioValue | addToMmioReadQueue | setCpuInterruptTrigger
  | enableCodeCoverage | disableCodeCoverage | getCodeCoverage | getCodeCoverageShm
  | resetCodeCoverage | setReturnCodeAddress | getReturnCode | doRun | doRunShm
  | setErrorSymbol | setFixedRead | getCpuPc | jumpCpuTo | storeCpuRegisters
  | restoreCpuRegisters
  deriving DecidableEq

/-- The enumerators in the order of their declaration, hence of their values. -/
def commands : List Command :=
  [.«continue», .kill, .setBreakpoint, .removeBreakpoint, .enableMmioTracking,
    .disableMmioTracking, .setMmioValue, .addToMmioReadQueue, .setCpuInterruptTrigger,
    .enableCodeCoverage, .disableCodeCoverage, .getCodeCoverage, .getCodeCoverageShm,
    .resetCodeCoverage, .setReturnCodeAddress, .getReturnCode, .doRun, .doRunShm,
    .setErrorSymbol, .setFixedRead, .getCpuPc, .jumpCpuTo, .storeCpuRegisters,
    .restoreCpuRegisters]

def Command.toByte (c : Command) : UInt8 := UInt8.ofNat (commands.idxOf c)

/-- The command a byte names. Any byte may arrive in a request, and most name none. -/
def Command.ofByte (b : UInt8) : Option Command := commands[b.toNat]?

@[simp] theorem Command.ofByte_toByte (c : Command) : Command.ofByte c.toByte = some c := by
  cases c <;> rfl

theorem Command.ofByte_eq_some_iff (b : UInt8) (c : Command) :
    Command.ofByte b = some c ↔ b = c.toByte := by
  constructor
  · intro h
    obtain ⟨hb, hc⟩ := List.getElem?_eq_some_iff.mp h
    have hi := List.Nodup.idxOf_getElem (show commands.Nodup by decide) b.toNat hb
    rw [Command.toByte, ← hc, hi, UInt8.ofNat_toNat]
  · rintro rfl
    exact Command.ofByte_toByte c

inductive Status
  | ok | error | malformed
  deriving DecidableEq

def Status.toByte : Status → UInt8
  | .ok => 0
  | .error => 1
  | .malformed => 2

theorem Status.toByte_injective : Function.Injective Status.toByte := by
  intro s t h
  cases s <;> cases t <;> first | rfl | cases h

inductive EventType
  | mmioRead | mmioWrite | vpEnd | breakpointHit | errorSymbolHit | vpError
  deriving DecidableEq

def EventType.toByte : EventType → UInt8
  | .mmioRead => 0
  | .mmioWrite => 1
  | .vpEnd => 2
  | .breakpointHit => 3
  | .errorSymbolHit => 4
  | .vpError => 5

def EventType.ofByte : UInt8 → Option EventType
  | 0 => some .mmioRead
  | 1 => some .mmioWrite
  | 2 => some .vpEnd
  | 3 => some .breakpointHit
  | 4 => some .errorSymbolHit
  | 5 => some .vpError
  | _ => none

@[simp] theorem EventType.ofByte_toByte (e : EventType) :
    EventType.ofByte e.toByte = some e := by
  cases e <;> rfl

theorem EventType.toByte_of_ofByte {b : UInt8} {e : EventType}
    (h : EventType.ofByte b = some e) : b = e.toByte := by
  unfold EventType.ofByte at h
  split at h <;> cases h <;> rfl

/-- Enum variables are kept as the byte they are sent as: a variable that is read
from a message or never written need not hold an enumerator. A null pointer is
`none`, a pointer to an allocated buffer the contents of the buffer. -/
structure Event where
  event : UInt8
  additionData : Option (List UInt8) := none
  additionalDataLength : UInt32 := 0
  deriving DecidableEq

structure Request where
  requestCommand : UInt8 := 0
  data : Option (List UInt8) := none
  dataLength : UInt32 := 0
  deriving DecidableEq

structure Response where
  responseStatus : UInt8 := 0
  data : Option (List UInt8) := none
  dataLength : UInt32 := 0
  deriving DecidableEq

/-- A payload: as many bytes as a 32-bit length can announce. -/
structure Payload where
  bytes : List UInt8
  bytes_lt : bytes.length < 2 ^ 32

namespace Payload

def empty : Payload := ⟨[], by decide⟩

def single (b : UInt8) : Payload := ⟨[b], by rw [List.length_singleton]; decide⟩

def length (p : Payload) : UInt32 := UInt32.ofNat p.bytes.length

/-- The buffer that holds the payload; there is none for an empty one. -/
def pointer (p : Payload) : Option (List UInt8) := if p.bytes = [] then none else some p.bytes

@[simp] theorem toNat_length (p : Payload) : p.length.toNat = p.bytes.length := by
  rw [length, UInt32.toNat_ofNat', Nat.mod_eq_of_lt p.bytes_lt]

theorem pointer_eq_none {p : Payload} (h : p.bytes = []) : p.pointer = none := if_pos h

theorem pointer_eq_some {p : Payload} (h : p.bytes ≠ []) : p.pointer = some p.bytes := if_neg h

@[simp] theorem getD_pointer (p : Payload) : p.pointer.getD [] = p.bytes := by
  unfold pointer
  split
  · next h => simp [h]
  · rfl

end Payload

def Request.of (command : UInt8) (p : Payload) : Request := ⟨command, p.pointer, p.length⟩

@[simp] theorem Request.of_requestCommand (command : UInt8) (p : Payload) :
    (Request.of command p).requestCommand = command := rfl

@[simp] theorem Request.of_dataLength (command : UInt8) (p : Payload) :
    (Request.of command p).dataLength.toNat = p.bytes.length := p.toNat_length

@[simp] theorem Request.of_data (command : UInt8) (p : Payload) :
    (Request.of command p).data.getD [] = p.bytes := p.getD_pointer

def Response.of (status : UInt8) (p : Payload) : Response := ⟨status, p.pointer, p.length⟩

end VpTesting.Types

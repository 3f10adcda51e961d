import VpTesting.Histogram
import VpTesting.TestingCommunication

namespace VpTesting.TestingReceiver

open VpTesting.ByteMemory VpTesting.Histogram VpTesting.Types VpTesting.TestingCommunication

def mapSizePow2 : Nat := 16

def mapSize : Nat := 1 <<< mapSizePow2

/-- The members of a receiver that events and code coverage are kept in. The map is
not initialized by the constructor. -/
structure Receiver where
  mEventQueue : List Event := []
  mFullSlots : Nat := 0
  mBbArray : Fin mapSize → UInt8
  mPrevBbLoc : UInt64 := 0

namespace Receiver

def notifyEvent (r : Receiver) (newEvent : Event) : Receiver :=
  { r with mEventQueue := r.mEventQueue ++ [newEvent], mFullSlots := r.mFullSlots + 1 }

/-- The first half of `notify_event`. -/
def pushEvent (r : Receiver) (newEvent : Event) : Receiver :=
  { r with mEventQueue := r.mEventQueue ++ [newEvent] }

/-- The second half of `notify_event`. -/
def postFullSlots (r : Receiver) : Receiver := { r with mFullSlots := r.mFullSlots + 1 }

/-- With no slot full the caller has to wait. -/
def waitForEvent (r : Receiver) : Option Receiver :=
  match r.mFullSlots with
  | 0 => none
  | slots + 1 => some { r with mFullSlots := slots }

def notifyMmioReadEvent (r : Receiver) (address : UInt64) (length : UInt32) :
    Receiver :=
  let buffer := List.replicate 12 0
  let buffer := int64ToBytes address.toInt64 buffer 0
  let buffer := int32ToBytes length.toInt32 buffer 8
  r.notifyEvent ⟨EventType.mmioRead.toByte, some buffer, 12⟩

/-- The event built here is an MMIO_READ, too. -/
def notifyMmioWriteEvent (r : Receiver) (address : UInt64) (length : UInt32)
    (data : List UInt8) : Receiver :=
  let buffer := List.replicate (12 + length).toNat 0
  let buffer := int64ToBytes address.toInt64 buffer 0
  let buffer := int32ToBytes length.toInt32 buffer 8
  let buffer := store buffer 12 (data.take length.toNat)
  r.notifyEvent ⟨EventType.mmioRead.toByte, some buffer, 12 + length⟩

def notifyVpEndEvent (r : Receiver) : Receiver :=
  r.notifyEvent ⟨EventType.vpEnd.toByte, none, 0⟩

def notifyBreakpointHitEvent (r : Receiver) (symbolName : List UInt8) : Receiver :=
  let buffer := List.replicate (symbolName.length + 1) 0
  let buffer := store buffer 0 symbolName
  let buffer := buffer.set symbolName.length 0
  r.notifyEvent ⟨EventType.breakpointHit.toByte, some buffer, UInt32.ofNat symbolName.length + 1⟩

/-- The static trigger, which finds the receiver through `m_instance`. -/
def notifyVpErrorEvent (mInstance : Option Receiver) : Option Receiver :=
  mInstance.map fun r => r.notifyEvent ⟨EventType.vpError.toByte, none, 0⟩

/-- There is no first event in an empty queue. -/
def getAndRemoveFirstEvent (r : Receiver) : Option (Event × Receiver) :=
  match r.mEventQueue with
  | [] => none
  | lastEvent :: queue => some (lastEvent, { r with mEventQueue := queue })

def resetCodeCoverage (r : Receiver) : Receiver := { r with mBbArray := fun _ => 0 }

def getCodeCoverage (r : Receiver) : List UInt8 := List.ofFn r.mBbArray

def currBbLoc (pc : UInt64) : UInt64 := ((pc >>> 4) ^^^ (pc <<< 8)) &&& UInt64.ofNat (mapSize - 1)

def setBlock (r : Receiver) (pc : UInt64) : Receiver :=
  { r with
    mBbArray := hit r.mBbArray (currBbLoc pc ^^^ r.mPrevBbLoc).toNat
    mPrevBbLoc := currBbLoc pc >>> 1 }

end Receiver

end VpTesting.TestingReceiver

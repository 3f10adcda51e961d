import VpTesting.TestingCommunication

namespace VpTesting.IntegerCodecs

open VpTesting.ByteMemory VpTesting.TestingCommunication

variable {ι ω : Type}

/-- The two functions of a codec for integers of a width in bytes, and the conversions that
callers make between the signed and the unsigned integers of that width. -/
structure IntegerCodec (ι ω : Type) where
  width : Nat
  write : ι → List UInt8 → Nat → List UInt8
  read : (Nat → UInt8) → Nat → ι
  toSigned : ω → ι
  toUnsigned : ι → ω

def int32Codec : IntegerCodec Int32 UInt32 where
  width := 4
  write := int32ToBytes
  read := bytesToInt32
  toSigned := UInt32.toInt32
  toUnsigned := Int32.toUInt32

def int64Codec : IntegerCodec Int64 UInt64 where
  width := 8
  write := int64ToBytes
  read := bytesToInt64
  toSigned := UInt64.toInt64
  toUnsigned := Int64.toUInt64

/-- Reading and writing a field of the buffer at `start` undo each other, for signed and for
unsigned values, and writing touches nothing but the field. -/
structure Inverse (k : IntegerCodec ι ω) (buffer : List UInt8) (start : Nat)
    (beyond : Nat → UInt8) : Prop where
  read_write : ∀ value, k.read (view (k.write value buffer start) beyond) start = value
  write_read : k.write (k.read (view buffer beyond) start) buffer start = buffer
  length : ∀ value, (k.write value buffer start).length = buffer.length
  frame : ∀ value i, i < start ∨ start + k.width ≤ i →
    (k.write value buffer start)[i]? = buffer[i]?
  unsigned : ∀ value,
    k.toUnsigned (k.read (view (k.write (k.toSigned value) buffer start) beyond) start) = value

/-- The codec stores the bytes that stand for a value, and reads a value from its bytes. -/
structure Represents (k : IntegerCodec ι ω) (bytes : ι → List UInt8) : Prop where
  length_bytes : ∀ value, (bytes value).length = k.width
  write_eq : ∀ value buffer start, k.write value buffer start = store buffer start (bytes value)
  read_eq_iff : ∀ m start value, k.read m start = value ↔ slice m start k.width = bytes value
  toUnsigned_toSigned : ∀ value, k.toUnsigned (k.toSigned value) = value

theorem Represents.inverse {k : IntegerCodec ι ω} {bytes : ι → List UInt8}
    (hk : Represents k bytes) {buffer : List UInt8} {start : Nat} (beyond : Nat → UInt8)
    (h : start + k.width ≤ buffer.length) : Inverse k buffer start beyond := by
  have hread (value : ι) : k.read (view (k.write value buffer start) beyond) start = value := by
    have hl := hk.length_bytes value
    have hs := slice_view_store beyond (hl.symm ▸ h : start + (bytes value).length ≤ buffer.length)
    rw [hl] at hs
    rw [hk.read_eq_iff, hk.write_eq]
    exact hs
  refine ⟨hread, ?_, ?_, ?_, ?_⟩
  · have hb := (hk.read_eq_iff (view buffer beyond) start _).mp rfl
    rw [hk.write_eq, ← hb]
    exact store_slice_view beyond h
  · intro value
    rw [hk.write_eq, length_store]
  · intro value i hi
    rw [hk.write_eq, getElem?_store _ _ (by rwa [hk.length_bytes])]
  · intro value
    rw [hread, hk.toUnsigned_toSigned]

theorem represents_int32 : Represents int32Codec fun value => be32 value.toUInt32 where
  length_bytes value := length_be32 value.toUInt32
  write_eq := int32ToBytes_eq_store
  read_eq_iff m start value := by
    have hinj : Function.Injective Int32.toUInt32 :=
      Function.LeftInverse.injective Int32.toInt32_toUInt32
    exact hinj.eq_iff.symm.trans (bytesToInt32_eq_iff m start value.toUInt32)
  toUnsigned_toSigned := UInt32.toUInt32_toInt32

theorem represents_int64 : Represents int64Codec fun value => be64 value.toUInt64 where
  length_bytes value := length_be64 value.toUInt64
  write_eq := int64ToBytes_eq_store
  read_eq_iff m start value := by
    have hinj : Function.Injective Int64.toUInt64 :=
      Function.LeftInverse.injective Int64.toInt64_toUInt64
    exact hinj.eq_iff.symm.trans (bytesToInt64_eq_iff m start value.toUInt64)
  toUnsigned_toSigned := UInt64.toUInt64_toInt64

/-- Both codecs are inverse on every field that has room in its buffer. -/
theorem inverse_of_room (buffer : List UInt8) (start : Nat) (beyond : Nat → UInt8) :
    (start + 4 ≤ buffer.length → Inverse int32Codec buffer start beyond) ∧
      (start + 8 ≤ buffer.length → Inverse int64Codec buffer start beyond) :=
  ⟨represents_int32.inverse beyond, represents_int64.inverse beyond⟩

/-- A buffer with a byte in front of the fields. -/
theorem inverse_behind_command :
    Inverse int32Codec (List.replicate 9 255) 1 (fun _ => 0) ∧
      Inverse int64Codec (List.replicate 9 255) 1 (fun _ => 0) := by
  obtain ⟨h32, h64⟩ := inverse_of_room (List.replicate 9 255) 1 fun _ => 0
  exact ⟨h32 (by decide), h64 (by decide)⟩

end VpTesting.IntegerCodecs

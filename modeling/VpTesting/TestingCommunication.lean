import VpTesting.BigEndian
import VpTesting.ByteMemory
import VpTesting.Types
import Mathlib.Data.UInt

namespace VpTesting.TestingCommunication

open VpTesting.BigEndian VpTesting.ByteMemory VpTesting.Types

def respondMalformed (res : Response) : Response :=
  { res with responseStatus := Status.malformed.toByte, data := none, dataLength := 0 }

def int32ToBytes (value : Int32) (buffer : List UInt8) (start : Nat) : List UInt8 :=
  (((buffer.set start ((value >>> 24) &&& 0xFF).toUInt32.toUInt8).set
    (start + 1) ((value >>> 16) &&& 0xFF).toUInt32.toUInt8).set
    (start + 2) ((value >>> 8) &&& 0xFF).toUInt32.toUInt8).set
    (start + 3) (value &&& 0xFF).toUInt32.toUInt8

def bytesToInt32 (buffer : Nat → UInt8) (start : Nat) : Int32 :=
  ((buffer start).toUInt32.toInt32 <<< 24) |||
    ((buffer (start + 1)).toUInt32.toInt32 <<< 16) |||
    ((buffer (start + 2)).toUInt32.toInt32 <<< 8) |||
    (buffer (start + 3)).toUInt32.toInt32

def int64ToBytes (value : Int64) (buffer : List UInt8) (start : Nat) : List UInt8 :=
  (((((((buffer.set start ((value >>> 56) &&& 0xFF).toUInt64.toUInt8).set
    (start + 1) ((value >>> 48) &&& 0xFF).toUInt64.toUInt8).set
    (start + 2) ((value >>> 40) &&& 0xFF).toUInt64.toUInt8).set
    (start + 3) ((value >>> 32) &&& 0xFF).toUInt64.toUInt8).set
    (start + 4) ((value >>> 24) &&& 0xFF).toUInt64.toUInt8).set
    (start + 5) ((value >>> 16) &&& 0xFF).toUInt64.toUInt8).set
    (start + 6) ((value >>> 8) &&& 0xFF).toUInt64.toUInt8).set
    (start + 7) (value &&& 0xFF).toUInt64.toUInt8

def bytesToInt64 (buffer : Nat → UInt8) (start : Nat) : Int64 :=
  ((buffer start).toUInt64.toInt64 <<< 56) |||
    ((buffer (start + 1)).toUInt64.toInt64 <<< 48) |||
    ((buffer (start + 2)).toUInt64.toInt64 <<< 40) |||
    ((buffer (start + 3)).toUInt64.toInt64 <<< 32) |||
    ((buffer (start + 4)).toUInt64.toInt64 <<< 24) |||
    ((buffer (start + 5)).toUInt64.toInt64 <<< 16) |||
    ((buffer (start + 6)).toUInt64.toInt64 <<< 8) |||
    (buffer (start + 7)).toUInt64.toInt64

/-- The four bytes of a 32-bit field on the wire. -/
def be32 (v : UInt32) : List UInt8 := toBytes 4 v.toNat

def be64 (v : UInt64) : List UInt8 := toBytes 8 v.toNat

@[simp] theorem length_be32 (v : UInt32) : (be32 v).length = 4 := length_toBytes 4 _

@[simp] theorem length_be64 (v : UInt64) : (be64 v).length = 8 := length_toBytes 8 _

theorem slice_four (m : Nat → UInt8) (start : Nat) :
    slice m start 4 = [m start, m (start + 1), m (start + 2), m (start + 3)] := rfl

theorem slice_eight (m : Nat → UInt8) (start : Nat) :
    slice m start 8 = [m start, m (start + 1), m (start + 2), m (start + 3),
      m (start + 4), m (start + 5), m (start + 6), m (start + 7)] := rfl

theorem bytesToInt32_toNat (m : Nat → UInt8) (start : Nat) :
    (bytesToInt32 m start).toUInt32.toNat = ofBytes (slice m start 4) := by
  have hw (b : UInt8) (k : Nat) (hk : k + 8 ≤ 32) :
      b.toNat <<< k % 4294967296 = b.toNat <<< k := shiftLeft_mod_word b hk
  rw [slice_four, ofBytes_four, bytesToInt32, ← UInt32.toNat_toBitVec]
  simp [hw]

theorem bytesToInt64_toNat (m : Nat → UInt8) (start : Nat) :
    (bytesToInt64 m start).toUInt64.toNat = ofBytes (slice m start 8) := by
  have hw (b : UInt8) (k : Nat) (hk : k + 8 ≤ 64) :
      b.toNat <<< k % 18446744073709551616 = b.toNat <<< k := shiftLeft_mod_word b hk
  rw [slice_eight, ofBytes_eight, bytesToInt64, ← UInt64.toNat_toBitVec]
  simp [hw]

/-- Reading a field gives `v` exactly when the bytes read are those of `v`. -/
theorem bytesToInt32_eq_iff (m : Nat → UInt8) (start : Nat) (v : UInt32) :
    (bytesToInt32 m start).toUInt32 = v ↔ slice m start 4 = be32 v := by
  have h := ofBytes_eq_iff (slice m start 4) v.toNat
  rw [length_slice] at h
  rw [← UInt32.toNat_inj, bytesToInt32_toNat]
  exact h v.toNat_lt

theorem bytesToInt64_eq_iff (m : Nat → UInt8) (start : Nat) (v : UInt64) :
    (bytesToInt64 m start).toUInt64 = v ↔ slice m start 8 = be64 v := by
  have h := ofBytes_eq_iff (slice m start 8) v.toNat
  rw [length_slice] at h
  rw [← UInt64.toNat_inj, bytesToInt64_toNat]
  exact h v.toNat_lt

theorem bytesToInt32_be32 (pre post : List UInt8) (v : UInt32) (beyond : Nat → UInt8) :
    (bytesToInt32 (view (pre ++ be32 v ++ post) beyond) pre.length).toUInt32 = v :=
  (bytesToInt32_eq_iff _ _ v).mpr (slice_view_append pre (be32 v) post beyond)

theorem bytesToInt64_be64 (pre post : List UInt8) (v : UInt64) (beyond : Nat → UInt8) :
    (bytesToInt64 (view (pre ++ be64 v ++ post) beyond) pre.length).toUInt64 = v :=
  (bytesToInt64_eq_iff _ _ v).mpr (slice_view_append pre (be64 v) post beyond)

theorem lowByte_int32 (value shifted : Int32) (k : Nat) (hk : k + 8 ≤ 32)
    (hs : shifted.toBitVec = value.toBitVec.sshiftRight k) :
    (shifted &&& 0xFF).toUInt32.toUInt8 = UInt8.ofNat (value.toUInt32.toNat / 2 ^ k) := by
  apply UInt8.toBitVec_inj.mp
  simp only [UInt32.toBitVec_toUInt8, Int32.toBitVec_toUInt32, Int32.toBitVec_and, hs,
    BitVec.setWidth_and, setWidth_sshiftRight _ hk]
  exact and_lowByte _

theorem lowByte_int64 (value shifted : Int64) (k : Nat) (hk : k + 8 ≤ 64)
    (hs : shifted.toBitVec = value.toBitVec.sshiftRight k) :
    (shifted &&& 0xFF).toUInt64.toUInt8 = UInt8.ofNat (value.toUInt64.toNat / 2 ^ k) := by
  apply UInt8.toBitVec_inj.mp
  simp only [UInt64.toBitVec_toUInt8, Int64.toBitVec_toUInt64, Int64.toBitVec_and, hs,
    BitVec.setWidth_and, setWidth_sshiftRight _ hk]
  exact and_lowByte _

theorem int32ToBytes_eq_store (value : Int32) (buffer : List UInt8) (start : Nat) :
    int32ToBytes value buffer start = store buffer start (be32 value.toUInt32) := by
  have h24 := lowByte_int32 value (value >>> 24) 24 (by decide) (by simp)
  have h16 := lowByte_int32 value (value >>> 16) 16 (by decide) (by simp)
  have h8 := lowByte_int32 value (value >>> 8) 8 (by decide) (by simp)
  have h0 := lowByte_int32 value value 0 (by decide) (by simp)
  rw [int32ToBytes, h24, h16, h8, h0, be32, toBytes_four, pow_zero, Nat.div_one]
  rfl

theorem int64ToBytes_eq_store (value : Int64) (buffer : List UInt8) (start : Nat) :
    int64ToBytes value buffer start = store buffer start (be64 value.toUInt64) := by
  have h56 := lowByte_int64 value (value >>> 56) 56 (by decide) (by simp)
  have h48 := lowByte_int64 value (value >>> 48) 48 (by decide) (by simp)
  have h40 := lowByte_int64 value (value >>> 40) 40 (by decide) (by simp)
  have h32 := lowByte_int64 value (value >>> 32) 32 (by decide) (by simp)
  have h24 := lowByte_int64 value (value >>> 24) 24 (by decide) (by simp)
  have h16 := lowByte_int64 value (value >>> 16) 16 (by decide) (by simp)
  have h8 := lowByte_int64 value (value >>> 8) 8 (by decide) (by simp)
  have h0 := lowByte_int64 value value 0 (by decide) (by simp)
  rw [int64ToBytes, h56, h48, h40, h32, h24, h16, h8, h0, be64, toBytes_eight, pow_zero,
    Nat.div_one]
  rfl

/-- Writing a field replaces its four bytes and touches nothing else. -/
theorem int32ToBytes_append (value : Int32) (pre old post : List UInt8) (h : old.length = 4) :
    int32ToBytes value (pre ++ old ++ post) pre.length = pre ++ be32 value.toUInt32 ++ post := by
  rw [int32ToBytes_eq_store]
  exact store_append pre old post _ (by simpa using h)

theorem int64ToBytes_append (value : Int64) (pre old post : List UInt8) (h : old.length = 8) :
    int64ToBytes value (pre ++ old ++ post) pre.length = pre ++ be64 value.toUInt64 ++ post := by
  rw [int64ToBytes_eq_store]
  exact store_append pre old post _ (by simpa using h)

end VpTesting.TestingCommunication

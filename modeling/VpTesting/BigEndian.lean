import Mathlib.Data.List.Induction
import Mathlib.Data.Nat.Bitwise

namespace VpTesting.BigEndian

/-- The low `width` bytes of a natural, most significant byte first. -/
def toBytes : Nat → Nat → List UInt8
  | 0, _ => []
  | width + 1, n => toBytes width (n / 256) ++ [UInt8.ofNat n]

/-- The natural whose bytes are given most significant first. -/
def ofBytes (bs : List UInt8) : Nat := bs.foldl (fun n b => 256 * n + b.toNat) 0

@[simp] theorem length_toBytes (width n : Nat) : (toBytes width n).length = width := by
  induction width generalizing n with
  | zero => rfl
  | succ width ih => simp [toBytes, ih]

@[simp] theorem ofBytes_nil : ofBytes [] = 0 := rfl

@[simp] theorem ofBytes_append_singleton (bs : List UInt8) (b : UInt8) :
    ofBytes (bs ++ [b]) = 256 * ofBytes bs + b.toNat := by
  simp [ofBytes]

theorem ofBytes_toBytes (width n : Nat) (h : n < 256 ^ width) : ofBytes (toBytes width n) = n := by
  induction width generalizing n with
  | zero => simp only [pow_zero, Nat.lt_one_iff] at h; simp [toBytes, h]
  | succ width ih =>
    have hd : n / 256 < 256 ^ width := by
      rw [pow_succ] at h
      exact Nat.div_lt_of_lt_mul (by rwa [Nat.mul_comm] at h)
    rw [toBytes, ofBytes_append_singleton, ih (n / 256) hd, UInt8.toNat_ofNat']
    omega

theorem toBytes_ofBytes (bs : List UInt8) : toBytes bs.length (ofBytes bs) = bs := by
  induction bs using List.reverseRecOn with
  | nil => rfl
  | append_singleton bs b ih =>
    have hb : b.toNat < 256 := b.toNat_lt
    have hd : (256 * ofBytes bs + b.toNat) / 256 = ofBytes bs := by omega
    have hm : UInt8.ofNat (256 * ofBytes bs + b.toNat) = b := by
      apply UInt8.toNat.inj
      rw [UInt8.toNat_ofNat']
      omega
    rw [List.length_append, List.length_singleton, toBytes, ofBytes_append_singleton, hd, hm, ih]

theorem ofBytes_lt (bs : List UInt8) : ofBytes bs < 256 ^ bs.length := by
  induction bs using List.reverseRecOn with
  | nil => exact Nat.one_pos
  | append_singleton bs b ih =>
    have hb : b.toNat < 256 := b.toNat_lt
    rw [ofBytes_append_singleton, List.length_append, List.length_singleton, pow_succ]
    omega

theorem ofBytes_eq_iff (bs : List UInt8) (n : Nat) (h : n < 256 ^ bs.length) :
    ofBytes bs = n ↔ bs = toBytes bs.length n := by
  constructor
  · rintro rfl
    exact (toBytes_ofBytes bs).symm
  · intro hb
    have hn := ofBytes_toBytes bs.length n h
    rwa [← hb] at hn

/-- Appending a byte by shift and bitwise or, as C code assembles a word. -/
theorem shiftLeft_or_byte (n : Nat) (b : UInt8) : n <<< 8 ||| b.toNat = 256 * n + b.toNat := by
  rw [← Nat.shiftLeft_add_eq_or_of_lt (i := 8) b.toNat_lt n, Nat.shiftLeft_eq]
  omega

theorem ofBytes_four (a b c d : UInt8) :
    ofBytes [a, b, c, d] = a.toNat <<< 24 ||| b.toNat <<< 16 ||| c.toNat <<< 8 ||| d.toNat := by
  simp only [ofBytes, List.foldl_cons, List.foldl_nil, ← shiftLeft_or_byte,
    Nat.shiftLeft_or_distrib, ← Nat.shiftLeft_add, Nat.zero_shiftLeft, Nat.zero_or, Nat.reduceAdd]

theorem ofBytes_eight (a b c d e f g h : UInt8) :
    ofBytes [a, b, c, d, e, f, g, h] =
      a.toNat <<< 56 ||| b.toNat <<< 48 ||| c.toNat <<< 40 ||| d.toNat <<< 32 |||
        e.toNat <<< 24 ||| f.toNat <<< 16 ||| g.toNat <<< 8 ||| h.toNat := by
  simp only [ofBytes, List.foldl_cons, List.foldl_nil, ← shiftLeft_or_byte,
    Nat.shiftLeft_or_distrib, ← Nat.shiftLeft_add, Nat.zero_shiftLeft, Nat.zero_or, Nat.reduceAdd]

theorem toBytes_four (n : Nat) :
    toBytes 4 n = [UInt8.ofNat (n / 2 ^ 24), UInt8.ofNat (n / 2 ^ 16), UInt8.ofNat (n / 2 ^ 8),
      UInt8.ofNat n] := by
  simp only [toBytes, Nat.div_div_eq_div_mul]
  rfl

theorem toBytes_eight (n : Nat) :
    toBytes 8 n = [UInt8.ofNat (n / 2 ^ 56), UInt8.ofNat (n / 2 ^ 48), UInt8.ofNat (n / 2 ^ 40),
      UInt8.ofNat (n / 2 ^ 32), UInt8.ofNat (n / 2 ^ 24), UInt8.ofNat (n / 2 ^ 16),
      UInt8.ofNat (n / 2 ^ 8), UInt8.ofNat n] := by
  simp only [toBytes, Nat.div_div_eq_div_mul]
  rfl

/-- A byte shifted within a word of `w` bits loses nothing. -/
theorem shiftLeft_mod_word (b : UInt8) {k w : Nat} (h : k + 8 ≤ w) :
    b.toNat <<< k % 2 ^ w = b.toNat <<< k := by
  apply Nat.mod_eq_of_lt
  rw [Nat.shiftLeft_eq]
  calc b.toNat * 2 ^ k < 2 ^ 8 * 2 ^ k :=
        Nat.mul_lt_mul_of_pos_right b.toNat_lt (Nat.two_pow_pos k)
    _ = 2 ^ (k + 8) := by rw [← Nat.pow_add, Nat.add_comm]
    _ ≤ 2 ^ w := Nat.pow_le_pow_right (by decide) h

/-- The sign bits an arithmetic shift brings in lie above the byte that is kept. -/
theorem setWidth_sshiftRight {w : Nat} (v : BitVec w) {k : Nat} (h : k + 8 ≤ w) :
    (v.sshiftRight k).setWidth 8 = BitVec.ofNat 8 (v.toNat / 2 ^ k) := by
  apply BitVec.eq_of_getLsbD_eq
  intro i hi
  have hk : k + i < w := by omega
  have hw : ¬w ≤ i := by omega
  rw [BitVec.getLsbD_setWidth, BitVec.getLsbD_sshiftRight, BitVec.getLsbD_ofNat,
    Nat.testBit_div_two_pow, ← BitVec.testBit_toNat]
  simp [hk, hi, hw, Nat.add_comm]

theorem and_lowByte (v : BitVec 8) : v &&& 255#8 = v := BitVec.and_allOnes

end VpTesting.BigEndian

import Mathlib.Data.List.Basic
import Mathlib.Data.UInt

namespace VpTesting.Histogram

variable {n : Nat}

/-- Count a hit of the cell with the given index in a row of 8-bit counters. -/
def hit (counters : Fin n → UInt8) (index : Nat) : Fin n → UInt8 := fun i =>
  if i.val = index then counters i + 1 else counters i

/-- How often each cell is hit, modulo 256. -/
def histogram (n : Nat) (hits : List Nat) (i : Fin n) : UInt8 := UInt8.ofNat (hits.count i.val)

theorem ofNat_count_cons (hits : List Nat) (index k : Nat) :
    UInt8.ofNat ((index :: hits).count k) =
      if k = index then UInt8.ofNat (hits.count k) + 1 else UInt8.ofNat (hits.count k) := by
  by_cases hk : k = index
  · subst hk
    rw [List.count_cons_self, if_pos rfl, UInt8.ofNat_add]
    rfl
  · rw [List.count_cons_of_ne (fun h => hk h.symm), if_neg hk]

/-- Counters that were hit hold what they held before and the histogram of the hits. -/
theorem foldl_hit (counters : Fin n → UInt8) (hits : List Nat) :
    hits.foldl hit counters = fun i => counters i + histogram n hits i := by
  induction hits generalizing counters with
  | nil =>
    funext i
    simp [histogram]
  | cons index hits ih =>
    rw [List.foldl_cons, ih]
    funext i
    rw [histogram, histogram, ofNat_count_cons, hit]
    by_cases hi : i.val = index
    · rw [if_pos hi, if_pos hi, UInt8.add_assoc, UInt8.add_comm 1]
    · rw [if_neg hi, if_neg hi]

/-- Two rows of hits that differ in one hit only have different histograms. -/
theorem histogram_cons_inj {i j : Nat} (hits : List Nat) (hi : i < n) :
    histogram n (i :: hits) = histogram n (j :: hits) ↔ i = j := by
  constructor
  · intro h
    by_contra hne
    have hk := congrFun h ⟨i, hi⟩
    rw [histogram, histogram, ofNat_count_cons, ofNat_count_cons, if_pos rfl, if_neg hne] at hk
    simp at hk
  · rintro rfl
    rfl

end VpTesting.Histogram

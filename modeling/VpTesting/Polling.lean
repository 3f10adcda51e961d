import Mathlib.Data.List.Basic

namespace VpTesting.Polling

variable {ι : Type}

/-- What has come in over a channel before each poll, and which polls fail. -/
structure Channel (ι : Type) where
  arrived : Nat → List ι
  grows : ∀ n, arrived n <+: arrived (n + 1)
  fails : Nat → Bool

/-- Where a loop of polls is: how much it has taken, and if the last was what it waits for. -/
structure Looked where
  taken : Nat := 0
  found : Bool := false

/-- The first in a list of what is waited for. -/
structure First (P : ι → Bool) (xs : List ι) (k : Nat) : Prop where
  there : ∃ x, xs[k]? = some x ∧ P x = true
  before : ∀ j x, j < k → xs[j]? = some x → P x = false

theorem First.of_prefix {P : ι → Bool} {xs ys : List ι} {k : Nat} (h : First P ys k)
    (hp : xs <+: ys) (hk : k < xs.length) : First P xs k := by
  obtain ⟨rest, rfl⟩ := hp
  obtain ⟨x, hx, hP⟩ := h.there
  rw [List.getElem?_append_left hk] at hx
  refine ⟨⟨x, hx, hP⟩, fun j y hj hy => h.before j y hj ?_⟩
  rwa [List.getElem?_append_left (Nat.lt_trans hj hk)]

theorem First.mem {P : ι → Bool} {xs : List ι} {k : Nat} (h : First P xs k) :
    ∃ x ∈ xs, P x = true := by
  obtain ⟨x, hx, hP⟩ := h.there
  exact ⟨x, List.mem_of_getElem? hx, hP⟩

namespace Channel

variable (c : Channel ι) (P : ι → Bool)

/-- What a poll takes. -/
def next (n taken : Nat) : Option ι := if c.fails n then none else (c.arrived n)[taken]?

/-- The loop after some polls. It ends with what it waits for. -/
def after : Nat → Looked
  | 0 => {}
  | n + 1 =>
    let s := after n
    if s.found then s
    else match c.next n s.taken with
      | none => s
      | some x => ⟨s.taken + 1, P x⟩

/-- The polls do not fail for good. -/
def Fair : Prop := ∀ n, ∃ m, n ≤ m ∧ c.fails m = false

variable {c P} {n m : Nat} {x : ι}

theorem arrived_mono (hle : n ≤ m) : c.arrived n <+: c.arrived m := by
  induction hle with
  | refl => exact List.prefix_rfl
  | step _ ih => exact ih.trans (c.grows _)

theorem after_found (hf : (c.after P n).found = true) : c.after P (n + 1) = c.after P n := by
  rw [after, if_pos hf]

theorem after_missed (hn : c.next n (c.after P n).taken = none) :
    c.after P (n + 1) = c.after P n := by
  rw [after, hn, ite_self]

theorem after_taken (hf : (c.after P n).found = false)
    (hx : c.next n (c.after P n).taken = some x) :
    c.after P (n + 1) = ⟨(c.after P n).taken + 1, P x⟩ := by
  rw [after, if_neg (Bool.eq_false_iff.mp hf), hx]

theorem next_eq_some (hx : c.next n m = some x) :
    c.fails n = false ∧ (c.arrived n)[m]? = some x := by
  rw [next] at hx
  cases hf : c.fails n with
  | true =>
    rw [hf] at hx
    cases hx
  | false =>
    rw [hf] at hx
    exact ⟨rfl, hx⟩

theorem next_eq_none (hx : c.next n m = none) :
    c.fails n = true ∨ (c.arrived n)[m]? = none := by
  rw [next] at hx
  cases hf : c.fails n with
  | true => exact Or.inl rfl
  | false =>
    rw [hf] at hx
    exact Or.inr hx

/-- What follows the loop in each of its steps follows it all along. -/
theorem rel_after {R : Nat → Looked → Prop} (zero : R 0 {})
    (found : ∀ n l, R n l → l.found = true → R (n + 1) l)
    (missed : ∀ n l, R n l → l.found = false → c.next n l.taken = none → R (n + 1) l)
    (taken : ∀ n l x, R n l → l.found = false → c.next n l.taken = some x →
      R (n + 1) ⟨l.taken + 1, P x⟩) (n : Nat) : R n (c.after P n) := by
  induction n with
  | zero => exact zero
  | succ n ih =>
    cases hf : (c.after P n).found with
    | true =>
      rw [after_found hf]
      exact found n _ ih hf
    | false =>
      cases hx : c.next n (c.after P n).taken with
      | none =>
        rw [after_missed hx]
        exact missed n _ ih hf hx
      | some x =>
        rw [after_taken hf hx]
        exact taken n _ x ih hf hx

theorem taken_le_succ (n : Nat) : (c.after P n).taken ≤ (c.after P (n + 1)).taken := by
  cases hf : (c.after P n).found with
  | true => exact Nat.le_of_eq (congrArg Looked.taken (after_found hf).symm)
  | false =>
    cases hx : c.next n (c.after P n).taken with
    | none => exact Nat.le_of_eq (congrArg Looked.taken (after_missed hx).symm)
    | some x =>
      rw [after_taken hf hx]
      exact Nat.le_succ _

theorem taken_mono (hle : n ≤ m) : (c.after P n).taken ≤ (c.after P m).taken := by
  induction hle with
  | refl => exact Nat.le_refl _
  | step _ ih => exact Nat.le_trans ih (taken_le_succ _)

/-- The loop passes over what it does not wait for, and takes nothing behind what it does. -/
structure Scans (P : ι → Bool) (arrived : List ι) (s : Looked) : Prop where
  passed : ∀ i x, arrived[i]? = some x → i + 1 < s.taken → P x = false
  last : ∀ i x, arrived[i]? = some x → i + 1 = s.taken → P x = s.found
  taken : s.taken ≤ arrived.length
  found : s.found = true → 0 < s.taken

theorem Scans.mono {arrived arrived' : List ι} {s : Looked} (hs : Scans P arrived s)
    (hp : arrived <+: arrived') : Scans P arrived' s := by
  obtain ⟨rest, rfl⟩ := hp
  have hget (i : Nat) (hi : i < s.taken) : (arrived ++ rest)[i]? = arrived[i]? :=
    List.getElem?_append_left (Nat.lt_of_lt_of_le hi hs.taken)
  refine ⟨fun i x hx hi => ?_, fun i x hx hi => ?_, ?_, hs.found⟩
  · rw [hget i (by omega)] at hx
    exact hs.passed i x hx hi
  · rw [hget i (by omega)] at hx
    exact hs.last i x hx hi
  · rw [List.length_append]
    exact Nat.le_add_right_of_le hs.taken

theorem Scans.take {arrived : List ι} {s : Looked} {x : ι} (hs : Scans P arrived s)
    (hf : s.found = false) (hx : arrived[s.taken]? = some x) :
    Scans P arrived ⟨s.taken + 1, P x⟩ := by
  refine ⟨fun i y hy hi => ?_, fun i y hy hi => ?_, ?_, fun _ => Nat.succ_pos _⟩
  · by_cases hi' : i + 1 = s.taken
    · exact (hs.last i y hy hi').trans hf
    · have hlt : i + 1 < s.taken + 1 := hi
      exact hs.passed i y hy (by omega)
  · have hi' : i = s.taken := Nat.succ.inj hi
    rw [hi', hx] at hy
    rw [← Option.some.inj hy]
  · exact (List.getElem?_eq_some_iff.mp hx).1

theorem scans_after (n : Nat) : Scans P (c.arrived n) (c.after P n) := by
  apply rel_after (R := fun n l => Scans P (c.arrived n) l)
  · exact ⟨fun i _ _ hi => (Nat.not_lt_zero _ hi).elim,
      fun i _ _ hi => (Nat.succ_ne_zero i hi).elim, Nat.zero_le _, fun hf => nomatch hf⟩
  · intro n l hs hf
    exact hs.mono (c.grows n)
  · intro n l hs hf hx
    exact hs.mono (c.grows n)
  · intro n l x hs hf hx
    exact (hs.take hf (next_eq_some hx).2).mono (c.grows n)

/-- Without an end, everything that comes in is taken at some time. -/
theorem taken_or_found (hfair : c.Fair) {k : Nat} (hk : k ≤ (c.arrived m).length) :
    ∃ n, m ≤ n ∧ ((c.after P n).found = true ∨ k ≤ (c.after P n).taken) := by
  induction k with
  | zero => exact ⟨m, Nat.le_refl m, Or.inr (Nat.zero_le _)⟩
  | succ k ih =>
    obtain ⟨n, hmn, hf | hle⟩ := ih (Nat.le_of_succ_le hk)
    · exact ⟨n, hmn, Or.inl hf⟩
    · obtain ⟨p, hnp, hp⟩ := hfair n
      have hmp : m ≤ p := Nat.le_trans hmn hnp
      have hle' : k ≤ (c.after P p).taken := Nat.le_trans hle (taken_mono hnp)
      cases hf : (c.after P p).found with
      | true => exact ⟨p, hmp, Or.inl hf⟩
      | false =>
        by_cases hlt : k < (c.after P p).taken
        · exact ⟨p, hmp, Or.inr hlt⟩
        · have hk' : (c.after P p).taken = k := by omega
          have hlen : k < (c.arrived p).length :=
            Nat.lt_of_lt_of_le hk (arrived_mono hmp).length_le
          have hx : c.next p (c.after P p).taken = some (c.arrived p)[k] := by
            rw [hk', next, hp, if_neg Bool.false_ne_true, List.getElem?_eq_getElem hlen]
          have ht : (c.after P (p + 1)).taken = k + 1 := by rw [after_taken hf hx, hk']
          exact ⟨p + 1, Nat.le_succ_of_le hmp, Or.inr (Nat.le_of_eq ht.symm)⟩

/-- The loop has ended with the first of what it waits for. -/
theorem first_of_found (hf : (c.after P n).found = true) :
    ∃ k, (c.after P n).taken = k + 1 ∧ First P (c.arrived n) k := by
  have hs := scans_after (c := c) (P := P) n
  obtain ⟨k, hk⟩ := Nat.exists_eq_succ_of_ne_zero (Nat.ne_of_gt (hs.found hf))
  have hlt : k < (c.arrived n).length := by
    have hle := hs.taken
    omega
  have hx := List.getElem?_eq_getElem hlt
  refine ⟨k, hk, ⟨_, hx, (hs.last k _ hx hk.symm).trans hf⟩, fun j y hj hy => ?_⟩
  exact hs.passed j y hy (by omega)

/-- The loop ends if and only if what it waits for comes in. -/
theorem found_iff (hfair : c.Fair) :
    (∃ n, (c.after P n).found = true) ↔ ∃ n, ∃ x ∈ c.arrived n, P x = true := by
  constructor
  · rintro ⟨n, hf⟩
    obtain ⟨k, -, hk⟩ := first_of_found hf
    exact ⟨n, hk.mem⟩
  · rintro ⟨m, x, hx, hP⟩
    obtain ⟨k, hk, rfl⟩ := List.getElem_of_mem hx
    obtain ⟨n, hle, hf | hlt⟩ := taken_or_found (P := P) hfair (Nat.succ_le_of_lt hk)
    · exact ⟨n, hf⟩
    · refine ⟨n, ?_⟩
      have hs := scans_after (c := c) (P := P) n
      have hget : (c.arrived n)[k]? = some (c.arrived m)[k] := by
        obtain ⟨rest, hrest⟩ := arrived_mono (c := c) hle
        rw [← hrest, List.getElem?_append_left hk, List.getElem?_eq_getElem hk]
      by_cases hk' : k + 1 = (c.after P n).taken
      · rw [← hs.last k _ hget hk']
        exact hP
      · rw [hs.passed k _ hget (by omega)] at hP
        cases hP

end Channel

end VpTesting.Polling

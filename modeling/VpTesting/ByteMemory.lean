import Mathlib.Data.List.Basic
import Mathlib.Data.List.Range

namespace VpTesting.ByteMemory

variable {α : Type}

/-- What a pointer to a buffer of known contents sees: the contents, and past
their end whatever the memory behind the buffer holds. -/
def view (contents : List α) (beyond : Nat → α) (i : Nat) : α := (contents[i]?).getD (beyond i)

/-- The `length` cells read from `start` on. -/
def slice (m : Nat → α) (start length : Nat) : List α :=
  (List.range length).map (fun i => m (start + i))

@[simp] theorem length_slice (m : Nat → α) (start length : Nat) :
    (slice m start length).length = length := by
  simp [slice]

@[simp] theorem slice_zero (m : Nat → α) (start : Nat) : slice m start 0 = [] := rfl

theorem slice_add (m : Nat → α) (start a b : Nat) :
    slice m start (a + b) = slice m start a ++ slice m (start + a) b := by
  simp [slice, List.range_add, Function.comp_def, Nat.add_assoc]

theorem drop_slice (m : Nat → α) (start a b : Nat) :
    (slice m start (a + b)).drop a = slice m (start + a) b := by
  rw [slice_add, List.drop_left' (length_slice m start a)]

theorem take_slice (m : Nat → α) (start : Nat) {k length : Nat} (h : k ≤ length) :
    (slice m start length).take k = slice m start k := by
  rw [slice, ← List.map_take, List.take_range, Nat.min_eq_left h, slice]

theorem slice_view (contents : List α) (beyond : Nat → α) (start length : Nat)
    (h : start + length ≤ contents.length) :
    slice (view contents beyond) start length = (contents.drop start).take length := by
  apply List.ext_getElem
  · simp; omega
  · intro i hi _
    simp only [length_slice] at hi
    have hc : start + i < contents.length := by omega
    simp [slice, view, hc]

@[simp] theorem slice_view_all (contents : List α) (beyond : Nat → α) :
    slice (view contents beyond) 0 contents.length = contents := by
  rw [slice_view contents beyond 0 _ (by omega), List.drop_zero, List.take_length]

theorem slice_view_append (pre xs post : List α) (beyond : Nat → α) :
    slice (view (pre ++ xs ++ post) beyond) pre.length xs.length = xs := by
  rw [slice_view _ _ _ _ (by simp), List.append_assoc, List.drop_left, List.take_left]

theorem view_append (pre post : List α) (x : α) (beyond : Nat → α) :
    view (pre ++ x :: post) beyond pre.length = x := by
  simp [view]

/-- Overwrite the cells from `start` on. Cells past the end of the buffer are
not part of it, so what is written there is lost to the buffer. -/
def store (buffer : List α) (start : Nat) : List α → List α
  | [] => buffer
  | x :: xs => store (buffer.set start x) (start + 1) xs

@[simp] theorem length_store (buffer : List α) (start : Nat) (xs : List α) :
    (store buffer start xs).length = buffer.length := by
  induction xs generalizing buffer start with
  | nil => rfl
  | cons x xs ih => simp [store, ih]

theorem store_append (pre old post xs : List α) (h : old.length = xs.length) :
    store (pre ++ old ++ post) pre.length xs = pre ++ xs ++ post := by
  induction xs generalizing pre old with
  | nil => simp [store, List.length_eq_zero_iff.mp h]
  | cons x xs ih =>
    cases old with
    | nil => simp at h
    | cons o old =>
      have hl : old.length = xs.length := by simpa using h
      have hs := ih (pre ++ [x]) old hl
      simpa [store] using hs

theorem getElem?_store (buffer xs : List α) {start i : Nat}
    (hi : i < start ∨ start + xs.length ≤ i) : (store buffer start xs)[i]? = buffer[i]? := by
  induction xs generalizing buffer start with
  | nil => rfl
  | cons x xs ih =>
    rw [List.length_cons] at hi
    rw [store, ih (buffer.set start x) (by omega), List.getElem?_set_ne (by omega)]

/-- Cells with room in the buffer, as a part of it. -/
theorem exists_parts {buffer : List α} {start width : Nat} (h : start + width ≤ buffer.length) :
    ∃ pre old post, buffer = pre ++ old ++ post ∧ pre.length = start ∧ old.length = width := by
  refine ⟨buffer.take start, (buffer.drop start).take width, (buffer.drop start).drop width,
    ?_, ?_, ?_⟩
  · rw [List.append_assoc, List.take_append_drop, List.take_append_drop]
  · exact List.length_take_of_le (by omega)
  · rw [List.length_take, List.length_drop]
    omega

/-- What was stored is read back. -/
theorem slice_view_store {buffer xs : List α} {start : Nat} (beyond : Nat → α)
    (h : start + xs.length ≤ buffer.length) :
    slice (view (store buffer start xs) beyond) start xs.length = xs := by
  obtain ⟨pre, old, post, rfl, rfl, ho⟩ := exists_parts h
  rw [store_append pre old post xs ho]
  exact slice_view_append pre xs post beyond

/-- Storing what was read changes nothing. -/
theorem store_slice_view {buffer : List α} {start width : Nat} (beyond : Nat → α)
    (h : start + width ≤ buffer.length) :
    store buffer start (slice (view buffer beyond) start width) = buffer := by
  obtain ⟨pre, old, post, rfl, rfl, rfl⟩ := exists_parts h
  rw [slice_view_append]
  exact store_append pre old post old rfl

/-- A local buffer: the memory from its start on, and the offsets written so far. -/
structure Buffer (α : Type) where
  memory : Nat → α
  written : List Nat := []

namespace Buffer

/-- A copy into the buffer does not stop at its end. -/
def copy (b : Buffer α) (start : Nat) (xs : List α) : Buffer α where
  memory i := if start ≤ i then (xs[i - start]?).getD (b.memory i) else b.memory i
  written := b.written ++ List.range' start xs.length

theorem slice_copy (b : Buffer α) (start : Nat) (xs : List α) :
    slice (b.copy start xs).memory 0 (start + xs.length) = slice b.memory 0 start ++ xs := by
  rw [slice_add, Nat.zero_add]
  congr 1
  · refine List.map_congr_left fun i hi => ?_
    have hlt : ¬start ≤ 0 + i := by
      have := List.mem_range.mp hi
      omega
    exact if_neg hlt
  · apply List.ext_getElem
    · simp
    · intro i hi hx
      simp [slice, copy, hx]

end Buffer

end VpTesting.ByteMemory

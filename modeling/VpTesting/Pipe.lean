import Mathlib.Data.List.Basic

namespace VpTesting.Pipe

variable {α : Type}

/-- How a read ends: it fails, it returns no bytes, or it returns a chunk of at most
`more + 1` bytes. -/
inductive ReadOutcome
  | error
  | empty
  | data (more : Nat)

/-- The bytes a read returns, or `none` for the result -1, and what the pipe then holds. -/
structure ReadResult (α : Type) where
  bytes : Option (List α)
  pipe : List α

/-- Read at most `count` bytes. A read of data blocks while the pipe is empty. -/
def read (o : ReadOutcome) (count : Nat) (pipe : List α) : Option (ReadResult α) :=
  match o with
  | .error => some ⟨none, pipe⟩
  | .empty => some ⟨some [], pipe⟩
  | .data more =>
    if pipe.isEmpty then none
    else some ⟨some (pipe.take (min (more + 1) count)), pipe.drop (min (more + 1) count)⟩

/-- How a write ends: it fails, it stops after `count` bytes, or it writes all bytes. -/
inductive WriteOutcome
  | error
  | short (count : Nat)
  | full

/-- The number of bytes a write returns, or `none` for the result -1, and what the
pipe then holds. -/
structure WriteResult (α : Type) where
  written : Option Nat
  pipe : List α

def write (o : WriteOutcome) (bytes pipe : List α) : WriteResult α :=
  match o with
  | .error => ⟨none, pipe⟩
  | .short count => ⟨some (min count bytes.length), pipe ++ bytes.take count⟩
  | .full => ⟨some bytes.length, pipe ++ bytes⟩

/-- A read up to the end of some bytes takes the first of them. -/
theorem read_data_append (more : Nat) (needed rest : List α) (hn : needed ≠ []) :
    read (.data more) needed.length (needed ++ rest) =
      some ⟨some (needed.take (more + 1)), needed.drop (more + 1) ++ rest⟩ := by
  have hne : (needed ++ rest).isEmpty = false := by
    cases needed with
    | nil => exact absurd rfl hn
    | cons x needed => rfl
  have ht : (needed ++ rest).take (min (more + 1) needed.length) = needed.take (more + 1) := by
    rw [← List.take_take, List.take_left]
  have hd : (needed ++ rest).drop (min (more + 1) needed.length) =
      needed.drop (more + 1) ++ rest := by
    rw [List.drop_append_of_le_length (Nat.min_le_right _ _)]
    by_cases hm : more + 1 ≤ needed.length
    · rw [Nat.min_eq_left hm]
    · rw [Nat.min_eq_right (by omega), List.drop_length, List.drop_of_length_le (by omega)]
  rw [read, hne, ht, hd]
  rfl

/-- A read that is long enough takes all of them. -/
theorem read_exact {more : Nat} {bytes : List α} (rest : List α) (hb : bytes ≠ [])
    (hm : bytes.length ≤ more + 1) :
    read (.data more) bytes.length (bytes ++ rest) = some ⟨some bytes, rest⟩ := by
  rw [read_data_append more bytes rest hb, List.take_of_length_le hm, List.drop_of_length_le hm,
    List.nil_append]

end VpTesting.Pipe

import Mathlib.Logic.Function.Basic

namespace VpTesting.Descriptors

/-- What a descriptor may stand for: an end of a pipe, the pipes being numbered in the order in
which they were created, or anything else. -/
inductive File
  | readEnd (pipe : Nat)
  | writeEnd (pipe : Nat)
  | other
  deriving DecidableEq

/-- The descriptors of a process. -/
abbrev Table := Int → Option File

/-- A process, and the number of pipes created so far. -/
structure Kernel where
  table : Table
  pipes : Nat

namespace Kernel

/-- A pipe whose ends got the given descriptors. -/
def pipe (k : Kernel) (fds : Int × Int) : Kernel where
  table := Function.update (Function.update k.table fds.1 (some (.readEnd k.pipes))) fds.2
    (some (.writeEnd k.pipes))
  pipes := k.pipes + 1

/-- The second descriptor is closed if it is open, and then stands for what the first does. -/
def dup2 (k : Kernel) (old new : Int) : Kernel :=
  { k with table := Function.update k.table new (k.table old) }

def close (k : Kernel) (fd : Int) : Kernel :=
  { k with table := Function.update k.table fd none }

/-- Descriptors that a new pipe may get. -/
structure Free (k : Kernel) (fds : Int × Int) : Prop where
  read : k.table fds.1 = none
  write : k.table fds.2 = none
  ne : fds.1 ≠ fds.2

variable {k : Kernel} {fds : Int × Int} {fd old new : Int} {file : File}

theorem table_pipe_read (hf : k.Free fds) : (k.pipe fds).table fds.1 = some (.readEnd k.pipes) :=
  (Function.update_of_ne hf.ne ..).trans (Function.update_self ..)

theorem table_pipe_write : (k.pipe fds).table fds.2 = some (.writeEnd k.pipes) :=
  Function.update_self ..

/-- A new pipe leaves the open descriptors alone. -/
theorem table_pipe (hf : k.Free fds) (ho : k.table fd = some file) :
    (k.pipe fds).table fd = some file := by
  have hr : fd ≠ fds.1 := fun he => Option.some_ne_none file (ho.symm.trans (he ▸ hf.read))
  have hw : fd ≠ fds.2 := fun he => Option.some_ne_none file (ho.symm.trans (he ▸ hf.write))
  exact (Function.update_of_ne hw ..).trans ((Function.update_of_ne hr ..).trans ho)

theorem table_dup2_self : (k.dup2 old new).table new = k.table old := Function.update_self ..

theorem table_dup2 (hn : fd ≠ new) : (k.dup2 old new).table fd = k.table fd :=
  Function.update_of_ne hn ..

theorem table_close_self : (k.close fd).table fd = none := Function.update_self ..

/-- Closing some descriptors, whether they are open or not. -/
def closeAll (k : Kernel) (fds : List Int) : Kernel := fds.foldl close k

theorem pipes_closeAll (fds : List Int) : (k.closeAll fds).pipes = k.pipes := by
  induction fds generalizing k with
  | nil => rfl
  | cons fd fds ih => exact ih

theorem table_closeAll (fds : List Int) (fd : Int) :
    (k.closeAll fds).table fd = if fd ∈ fds then none else k.table fd := by
  induction fds generalizing k with
  | nil => rw [if_neg List.not_mem_nil, closeAll, List.foldl_nil]
  | cons fd' fds ih =>
    have hc : k.closeAll (fd' :: fds) = (k.close fd').closeAll fds := rfl
    rw [hc, ih]
    by_cases hm : fd ∈ fds
    · rw [if_pos hm, if_pos (List.mem_cons_of_mem _ hm)]
    · rw [if_neg hm]
      by_cases he : fd = fd'
      · rw [he, if_pos List.mem_cons_self, table_close_self]
      · rw [if_neg (List.not_mem_cons_of_ne_of_not_mem he hm)]
        exact Function.update_of_ne he ..

end Kernel

end VpTesting.Descriptors

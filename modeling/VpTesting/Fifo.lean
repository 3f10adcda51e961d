import Mathlib.Data.List.Basic

namespace VpTesting.Fifo

variable {α : Type} {put taken queue : List α} {x : α}

/-- What was put into a queue is what was taken out of it, followed by what it
still holds: nothing is lost, doubled or overtaken. -/
def Conserved (put taken queue : List α) : Prop := put = taken ++ queue

theorem Conserved.empty : Conserved ([] : List α) [] [] := rfl

theorem Conserved.push (h : Conserved put taken queue) (x : α) :
    Conserved (put ++ [x]) taken (queue ++ [x]) := by
  rw [Conserved, h, List.append_assoc]

theorem Conserved.pop (h : Conserved put taken (x :: queue)) :
    Conserved put (taken ++ [x]) queue := by
  rw [Conserved, h, List.append_assoc, List.singleton_append]

/-- The elements taken out are the first ones that were put in. -/
theorem Conserved.taken_eq (h : Conserved put taken queue) : taken = put.take taken.length := by
  rw [h, List.take_left]

end VpTesting.Fifo

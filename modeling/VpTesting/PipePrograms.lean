import Mathlib.Data.Stream.Init
import VpTesting.Pipe

namespace VpTesting.PipePrograms

open VpTesting.Pipe

variable {β α γ : Type}

/-- A program that reads from one pipe and writes to another: it has ended with a value, or makes
a call and goes on with the result. The result -1 is `none`. -/
inductive Program (β α : Type)
  | done (value : α)
  | read (count : Nat) (next : Option (List β) → Program β α)
  | write (bytes : List β) (next : Option Nat → Program β α)

/-- What a program has come to by itself, and what it left in the two pipes. -/
structure Result (β α : Type) where
  value : α
  input : List β
  output : List β

def Result.map (f : α → γ) (r : Result β α) : Result β γ := ⟨f r.value, r.input, r.output⟩

namespace Program

def bind : Program β α → (α → Program β γ) → Program β γ
  | done value, f => f value
  | read count next, f => read count fun r => (next r).bind f
  | write bytes next, f => write bytes fun r => (next r).bind f

def map (f : α → γ) (p : Program β α) : Program β γ := p.bind fun value => done (f value)

/-- The program by itself, with the outcomes of its reads and writes; `none` if a read blocks
for good. -/
def run : Program β α → Stream' ReadOutcome → Stream' WriteOutcome → List β → List β →
    Option (Result β α)
  | done value, _, _, input, output => some ⟨value, input, output⟩
  | read count next, reads, writes, input, output =>
    (Pipe.read reads.head count input).bind fun r =>
      (next r.bytes).run reads.tail writes r.pipe output
  | write bytes next, reads, writes, input, output =>
    let r := Pipe.write writes.head bytes output
    (next r.written).run reads writes.tail input r.pipe

variable {reads : Stream' ReadOutcome} {writes : Stream' WriteOutcome} {input output : List β}

theorem run_map (f : α → γ) (p : Program β α) :
    (p.map f).run reads writes input output =
      (p.run reads writes input output).map (Result.map f) := by
  induction p generalizing reads writes input output with
  | done value => rfl
  | read count next ih =>
    rw [map, bind, run, run, Option.map_bind]
    exact congrArg _ (funext fun r => ih r.bytes)
  | write bytes next ih => exact ih _

theorem bind_assoc {δ : Type} (p : Program β α) (f : α → Program β γ) (g : γ → Program β δ) :
    (p.bind f).bind g = p.bind fun value => (f value).bind g := by
  induction p with
  | done value => rfl
  | read count next ih => exact congrArg (read count) (funext ih)
  | write bytes next ih => exact congrArg (write bytes) (funext ih)

theorem map_bind {δ : Type} (p : Program β α) (f : α → γ) (g : γ → Program β δ) :
    (p.map f).bind g = p.bind fun value => g (f value) := bind_assoc p _ g

end Program

/-- What a pipe holds at most, and up to which length a write is atomic. -/
structure Limits where
  capacity : Nat
  atomic : Nat
  atomic_pos : 0 < atomic
  atomic_le : atomic ≤ capacity

/-- A process between two calls, or in a write of which some bytes are left. -/
inductive Process (β α : Type)
  | ready (p : Program β α)
  | writing (rest : List β) (p : Program β α)

namespace Process

/-- The process after some bytes of a write, with those that are left. -/
def written : List β → Program β α → Process β α
  | [], p => ready p
  | b :: rest, p => writing (b :: rest) p

/-- One step of a process, with its input and its output pipe before and after. Both pipes stay
open at their other ends. A read takes what is there and blocks while nothing is; a write blocks
while there is no room, and a long one goes in parts. A process whose program has ended may go on
with another. -/
inductive Step (l : Limits) (again : α → Option (Program β α)) :
    Process β α → List β → List β → Process β α → List β → List β → Prop
  | again {value : α} {p : Program β α} {input output : List β} (h : again value = some p) :
    Step l again (ready (.done value)) input output (ready p) input output
  | read {count : Nat} {next : Option (List β) → Program β α} {input output : List β}
    (hi : input ≠ []) :
    Step l again (ready (.read count next)) input output
      (ready (next (some (input.take count)))) (input.drop count) output
  | write {bytes : List β} {next : Option Nat → Program β α} {input output : List β}
    (ha : bytes.length ≤ l.atomic) (hr : output.length + bytes.length ≤ l.capacity) :
    Step l again (ready (.write bytes next)) input output
      (ready (next (some bytes.length))) input (output ++ bytes)
  | start {bytes : List β} {next : Option Nat → Program β α} {input output : List β}
    (ha : l.atomic < bytes.length) :
    Step l again (ready (.write bytes next)) input output
      (writing bytes (next (some bytes.length))) input output
  | part {now later : List β} {p : Program β α} {input output : List β} (hn : now ≠ [])
    (hr : output.length + now.length ≤ l.capacity) :
    Step l again (writing (now ++ later) p) input output (written later p) input (output ++ now)

end Process

/-- Two processes with a pipe in each direction. -/
structure Connected (β α γ : Type) where
  asker : Process β α
  answerer : Process β γ
  questions : List β := []
  answers : List β := []

/-- A step of either process. -/
inductive Connected.Step (l : Limits) (asks : α → Option (Program β α))
    (again : γ → Option (Program β γ)) : Connected β α γ → Connected β α γ → Prop
  | asker {C C' : Process β α} {R : Process β γ} {questions questions' answers answers' : List β}
    (h : Process.Step l asks C answers questions C' answers' questions') :
    Connected.Step l asks again ⟨C, R, questions, answers⟩ ⟨C', R, questions', answers'⟩
  | answerer {C : Process β α} {R R' : Process β γ}
    {questions questions' answers answers' : List β}
    (h : Process.Step l again R questions answers R' questions' answers') :
    Connected.Step l asks again ⟨C, R, questions, answers⟩ ⟨C, R', questions', answers'⟩

end VpTesting.PipePrograms

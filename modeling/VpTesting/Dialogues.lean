import VpTesting.Completion
import VpTesting.PipePrograms

namespace VpTesting.Dialogues

open VpTesting.Completion VpTesting.PipePrograms VpTesting.PipePrograms.Process

variable {β α γ : Type}

/-- A message that is announced by a header of its own. -/
structure Frame (β : Type) where
  header : List β
  body : List β
  header_ne : header ≠ []

/-- What a process has to say and to hear, a frame or the rest of its body. -/
inductive Act (β : Type)
  | say (f : Frame β)
  | sayRest (rest : List β)
  | hear (f : Frame β)
  | hearRest (rest : List β)

/-- The process says and hears all this within so many steps, in this order, and is `E` then. A
header is written and read in one call each, a body in any calls. -/
inductive Plays (l : Limits) (again : α → Option (Program β α)) (E : Process β α) :
    Nat → Process β α → List (Act β) → Prop
  | ended {n : Nat} : Plays l again E n E []
  | again {m n : Nat} {value : α} {p : Program β α} {acts : List (Act β)} (hm : m < n)
    (h : again value = some p) (hp : Plays l again E m (ready p) acts) :
    Plays l again E n (ready (.done value)) acts
  | say {m n : Nat} {f : Frame β} {next : Option Nat → Program β α} {acts : List (Act β)}
    (hm : m < n) (hf : f.header.length ≤ l.atomic)
    (hp : Plays l again E m (ready (next (some f.header.length))) (.sayRest f.body :: acts)) :
    Plays l again E n (ready (.write f.header next)) (.say f :: acts)
  | write {m n : Nat} {bytes rest : List β} {next : Option Nat → Program β α}
    {acts : List (Act β)} (hm : m + bytes.length + 1 < n)
    (hp : Plays l again E m (ready (next (some bytes.length))) (.sayRest rest :: acts)) :
    Plays l again E n (ready (.write bytes next)) (.sayRest (bytes ++ rest) :: acts)
  | writing {m n : Nat} {left rest : List β} {p : Program β α} {acts : List (Act β)}
    (hl : left ≠ []) (hm : m + left.length < n)
    (hp : Plays l again E m (ready p) (.sayRest rest :: acts)) :
    Plays l again E n (writing left p) (.sayRest (left ++ rest) :: acts)
  | said {n : Nat} {P : Process β α} {acts : List (Act β)} (hp : Plays l again E n P acts) :
    Plays l again E n P (.sayRest [] :: acts)
  | hear {m n : Nat} {f : Frame β} {next : Option (List β) → Program β α} {acts : List (Act β)}
    (hm : m < n)
    (hp : Plays l again E m (ready (next (some f.header))) (.hearRest f.body :: acts)) :
    Plays l again E n (ready (.read f.header.length next)) (.hear f :: acts)
  | read {m n count : Nat} {rest : List β} {next : Option (List β) → Program β α}
    {acts : List (Act β)} (hm : m < n) (hc : 0 < count) (hr : rest ≠ [])
    (hp : ∀ k, 0 < k → k ≤ count → k ≤ rest.length →
      Plays l again E m (ready (next (some (rest.take k)))) (.hearRest (rest.drop k) :: acts)) :
    Plays l again E n (ready (.read count next)) (.hearRest rest :: acts)
  | heard {n : Nat} {P : Process β α} {acts : List (Act β)} (hp : Plays l again E n P acts) :
    Plays l again E n P (.hearRest [] :: acts)

section

variable {l : Limits} {again : α → Option (Program β α)} {E P P' : Process β α} {m n : Nat}
  {acts acts' : List (Act β)} {f : Frame β} {rest input input' output output' : List β}

theorem Plays.mono (hp : Plays l again E m P acts) (hmn : m ≤ n) : Plays l again E n P acts := by
  induction hp generalizing n with
  | ended => exact .ended
  | again hm h hp => exact .again (Nat.lt_of_lt_of_le hm hmn) h hp
  | say hm hf hp => exact .say (Nat.lt_of_lt_of_le hm hmn) hf hp
  | write hm hp => exact .write (Nat.lt_of_lt_of_le hm hmn) hp
  | writing hl hm hp => exact .writing hl (Nat.lt_of_lt_of_le hm hmn) hp
  | said _ ih => exact .said (ih hmn)
  | hear hm hp => exact .hear (Nat.lt_of_lt_of_le hm hmn) hp
  | read hm hc hr hp => exact .read (Nat.lt_of_lt_of_le hm hmn) hc hr hp
  | heard _ ih => exact .heard (ih hmn)

/-- There is nothing to wait for when no more is to be heard. -/
theorem Plays.of_heard (hp : Plays l again E n P (.hearRest [] :: acts)) :
    Plays l again E n P acts := by
  generalize ha : (.hearRest [] :: acts : List (Act β)) = heard at hp
  induction hp with
  | ended | say | write | writing | said | hear => cases ha
  | again hm h _ ih => exact .again hm h (ih ha)
  | read hm hc hr =>
    cases ha
    exact absurd rfl hr
  | heard hp =>
    cases ha
    exact hp

/-- What may be in the input while a process has this to hear next. -/
def Fed : List (Act β) → List β → Prop
  | .hear f :: _, input => input = [] ∨ f.header <+: input
  | .hearRest rest :: _, input => input <+: rest
  | .sayRest [] :: acts, input => Fed acts input
  | .say _ :: _, _ | .sayRest (_ :: _) :: _, _ => True
  | [], input => input = []

/-- What one step leaves to be said and heard, with the input and the output. -/
inductive Advances : List (Act β) → List β → List β → List (Act β) → List β → List β → Prop
  | silent {acts : List (Act β)} {input output : List β} :
    Advances acts input output acts input output
  | say {f : Frame β} {acts : List (Act β)} {input output : List β} :
    Advances (.say f :: acts) input output (.sayRest f.body :: acts) input (output ++ f.header)
  | sayRest {now later : List β} {acts : List (Act β)} {input output : List β} :
    Advances (.sayRest (now ++ later) :: acts) input output (.sayRest later :: acts) input
      (output ++ now)
  | said {acts acts' : List (Act β)} {input input' output output' : List β}
    (h : Advances acts input output acts' input' output') :
    Advances (.sayRest [] :: acts) input output acts' input' output'
  | hear {f : Frame β} {acts : List (Act β)} {input output : List β} :
    Advances (.hear f :: acts) (f.header ++ input) output (.hearRest f.body :: acts) input output
  | hearRest {now later : List β} {acts : List (Act β)} {input output : List β} :
    Advances (.hearRest (now ++ later) :: acts) (now ++ input) output (.hearRest later :: acts)
      input output
  | heard {acts acts' : List (Act β)} {input input' output output' : List β}
    (h : Advances acts input output acts' input' output') :
    Advances (.hearRest [] :: acts) input output acts' input' output'

/-- Without input the process waits for good. -/
def Halted (l : Limits) (again : α → Option (Program β α)) (E : Process β α) : Prop :=
  ∀ output P' input' output', ¬Step l again E [] output P' input' output'

theorem halted_done {value : α} (h : again value = none) :
    Halted l again (ready (.done value)) := by
  intro output P' input' output' hs
  cases hs with
  | again h' => cases h.symm.trans h'

theorem halted_read {count : Nat} {next : Option (List β) → Program β α} :
    Halted l again (ready (.read count next)) := by
  intro output P' input' output' hs
  cases hs with
  | read hi => exact hi rfl

theorem fed_nil (acts : List (Act β)) : Fed acts [] := by
  induction acts with
  | nil => rfl
  | cons a acts ih =>
    cases a with
    | say => trivial
    | sayRest rest =>
      cases rest with
      | nil => exact ih
      | cons => trivial
    | hear => exact Or.inl rfl
    | hearRest rest => exact List.nil_prefix

/-- The rest of a write is the rest of what is to be said. -/
theorem Plays.written {later : List β} {p : Program β α} {k : Nat} (hk : m + later.length < k)
    (hp : Plays l again E m (ready p) (.sayRest rest :: acts)) :
    Plays l again E k (Process.written later p) (.sayRest (later ++ rest) :: acts) := by
  cases later with
  | nil => exact hp.mono (Nat.le_of_lt hk)
  | cons b later => exact .writing (List.cons_ne_nil b later) hk hp

/-- Each step of a process brings it on with what it has to say and to hear. -/
theorem Plays.step (hE : Halted l again E) (hp : Plays l again E n P acts) (hf : Fed acts input)
    (hs : Step l again P input output P' input' output') :
    ∃ m < n, ∃ acts', Plays l again E m P' acts' ∧
      Advances acts input output acts' input' output' := by
  induction hp with
  | ended =>
    cases hf
    exact absurd hs (hE _ _ _ _)
  | @again m n value p acts hm h hp =>
    cases hs with
    | again h' =>
      obtain rfl := Option.some.inj (h.symm.trans h')
      exact ⟨m, hm, acts, hp, .silent⟩
  | @say m n f next acts hm _ hp =>
    cases hs with
    | write => exact ⟨m, hm, _, hp, .say⟩
    | start ha => omega
  | @write m n bytes rest next acts hm hp =>
    cases hs with
    | write => exact ⟨m, by omega, _, hp, .sayRest⟩
    | start ha =>
      have hb : bytes ≠ [] := List.ne_nil_of_length_pos (by omega)
      exact ⟨m + bytes.length + 1, hm, _, .writing hb (Nat.lt_succ_self _) hp, .silent⟩
  | @writing m n left rest p acts _ hm hp =>
    cases hs with
    | @part now later _ _ _ hn =>
      have hpos := List.length_pos_iff.mpr hn
      rw [List.length_append] at hm
      rw [List.append_assoc]
      exact ⟨m + later.length + 1, by omega, _, hp.written (Nat.lt_succ_self _), .sayRest⟩
  | said _ ih =>
    obtain ⟨m, hm, acts', hp', ha⟩ := ih hf hs
    exact ⟨m, hm, acts', hp', .said ha⟩
  | @hear m n f next acts hm hp =>
    cases hs with
    | read hi =>
      obtain ⟨more, rfl⟩ := hf.resolve_left hi
      rw [List.take_left, List.drop_left]
      exact ⟨m, hm, _, hp, .hear⟩
  | @read m n count rest next acts hm hc hr hp =>
    cases hs with
    | read hi =>
      obtain ⟨more, rfl⟩ := hf
      have hpos := List.length_pos_iff.mpr hi
      generalize hk : min count input.length = k
      have hle : k ≤ (input ++ more).length := by
        rw [List.length_append]
        omega
      have hnow : (input ++ more).take k = input.take count := by
        rw [List.take_append_of_le_length (by omega), ← hk, ← List.take_eq_take_min]
      have hadv : Advances
          (.hearRest ((input ++ more).take k ++ (input ++ more).drop k) :: acts)
          ((input ++ more).take k ++ input.drop count) output
          (.hearRest ((input ++ more).drop k) :: acts) (input.drop count) output := .hearRest
      rw [List.take_append_drop, hnow, List.take_append_drop] at hadv
      exact ⟨m, hm, _, hnow ▸ hp k (by omega) (by omega) hle, hadv⟩
  | heard _ ih =>
    cases List.prefix_nil.mp hf
    obtain ⟨m, hm, acts', hp', ha⟩ := ih (fed_nil _) hs
    exact ⟨m, hm, acts', hp', .heard ha⟩

/-- While there is something to say and room for it, or something to hear and it is there, the
process can go on. -/
theorem Plays.can_say (hp : Plays l again E n P (.say f :: acts)) :
    ∃ P' input' output', Step l again P input [] P' input' output' := by
  cases hp with
  | again _ h => exact ⟨_, _, _, .again h⟩
  | say _ hf =>
    refine ⟨_, _, _, .write hf ?_⟩
    rw [List.length_nil, Nat.zero_add]
    exact Nat.le_trans hf l.atomic_le

theorem Plays.can_write {bytes : List β} {next : Option Nat → Program β α} :
    ∃ P' input' output', Step l again (ready (.write bytes next)) input [] P' input' output' := by
  by_cases ha : bytes.length ≤ l.atomic
  · refine ⟨_, _, _, .write ha ?_⟩
    rw [List.length_nil, Nat.zero_add]
    exact Nat.le_trans ha l.atomic_le
  · exact ⟨_, _, _, .start (Nat.not_le.mp ha)⟩

theorem Plays.can_sayRest (hr : rest ≠ []) (hp : Plays l again E n P (.sayRest rest :: acts)) :
    ∃ P' input' output', Step l again P input [] P' input' output' := by
  cases hp with
  | again _ h => exact ⟨_, _, _, .again h⟩
  | write => exact Plays.can_write
  | @writing m n left rest p acts hl =>
    obtain ⟨b, left, rfl⟩ := List.exists_cons_of_ne_nil hl
    have hb : [b] ≠ [] := List.cons_ne_nil b []
    refine ⟨_, _, _, .part hb ?_⟩
    exact Nat.le_trans l.atomic_pos l.atomic_le
  | said => exact absurd rfl hr

theorem Plays.can_said (hp : Plays l again E n P (.sayRest [] :: acts)) :
    (∃ P' input' output', Step l again P input [] P' input' output') ∨
      Plays l again E n P acts := by
  generalize ha : (.sayRest [] :: acts : List (Act β)) = lagging at hp
  cases hp with
  | ended | say | hear | read | heard => cases ha
  | again _ h => exact Or.inl ⟨_, _, _, .again h⟩
  | write => exact Or.inl Plays.can_write
  | writing hl =>
    have hr := Act.sayRest.inj (List.cons.inj ha).1
    exact absurd (List.append_eq_nil_iff.mp hr.symm).1 hl
  | said hp =>
    cases ha
    exact Or.inr hp

theorem Plays.can_hear (hi : input ≠ []) (hp : Plays l again E n P (.hear f :: acts)) :
    ∃ P' input' output', Step l again P input output P' input' output' := by
  cases hp with
  | again _ h => exact ⟨_, _, _, .again h⟩
  | hear => exact ⟨_, _, _, .read hi⟩

theorem Plays.can_hearRest (hi : input ≠ []) (hr : rest ≠ [])
    (hp : Plays l again E n P (.hearRest rest :: acts)) :
    ∃ P' input' output', Step l again P input output P' input' output' := by
  cases hp with
  | again _ h => exact ⟨_, _, _, .again h⟩
  | read => exact ⟨_, _, _, .read hi⟩
  | heard => exact absurd rfl hr

theorem Plays.can_end (hp : Plays l again E n P []) :
    (∃ P' input' output', Step l again P input output P' input' output') ∨ P = E := by
  cases hp with
  | ended => exact Or.inr rfl
  | again _ h => exact Or.inl ⟨_, _, _, .again h⟩

end

/-- A question and the answer to it. -/
structure Exchange (β : Type) where
  question : Frame β
  answer : Frame β

/-- What the one who asks says and hears. -/
def asks : List (Exchange β) → List (Act β)
  | [] => []
  | e :: es => .say e.question :: .hear e.answer :: asks es

/-- And the one who answers. -/
def answers : List (Exchange β) → List (Act β)
  | [] => []
  | e :: es => .hear e.question :: .say e.answer :: answers es

/-- The rest of a body is to be said before `acts`. Nothing of it may be left. -/
def Lags (rest : List β) (acts later : List (Act β)) : Prop :=
  acts = .sayRest rest :: later ∨ rest = [] ∧ acts = later

/-- Where the two are with each other: what each has still to say and to hear, and what is in the
pipes. -/
inductive Meeting : List (Act β) → List (Act β) → List β → List β → Prop
  | asking {es : List (Exchange β)} {B : List (Act β)} (hB : Lags [] B (answers es)) :
    Meeting (asks es) B [] []
  | asked {e : Exchange β} {es : List (Exchange β)} {A B : List (Act β)} {there rest : List β}
    (hb : there ++ rest = e.question.body) (hA : Lags rest A (.hear e.answer :: asks es))
    (hB : Lags [] B (.hear e.question :: .say e.answer :: answers es)) :
    Meeting A B (e.question.header ++ there) []
  | hearing {e : Exchange β} {es : List (Exchange β)} {A : List (Act β)} {there rest : List β}
    (hb : there ++ rest ≠ []) (hA : Lags rest A (.hear e.answer :: asks es)) :
    Meeting A (.hearRest (there ++ rest) :: .say e.answer :: answers es) there []
  | answering {e : Exchange β} {es : List (Exchange β)} {A : List (Act β)}
    (hA : Lags [] A (.hear e.answer :: asks es)) :
    Meeting A (.say e.answer :: answers es) [] []
  | answered {e : Exchange β} {es : List (Exchange β)} {A B : List (Act β)} {there rest : List β}
    (hb : there ++ rest = e.answer.body) (hA : Lags [] A (.hear e.answer :: asks es))
    (hB : Lags rest B (answers es)) : Meeting A B [] (e.answer.header ++ there)
  | receiving {es : List (Exchange β)} {B : List (Act β)} {there rest : List β}
    (hb : there ++ rest ≠ []) (hB : Lags rest B (answers es)) :
    Meeting (.hearRest (there ++ rest) :: asks es) B [] there

section

variable {A A' B B' acts : List (Act β)} {questions back input' output output' rest : List β}
  {es : List (Exchange β)} {f : Frame β}

theorem advances_hear_nil (ha : Advances (.hear f :: acts) [] output A' input' output') :
    A' = .hear f :: acts ∧ input' = [] ∧ output' = output := by
  generalize hi : ([] : List β) = input at ha
  cases ha with
  | silent => exact ⟨rfl, rfl, rfl⟩
  | hear => exact absurd (List.append_eq_nil_iff.mp hi.symm).1 f.header_ne

theorem advances_answers_nil (ha : Advances (answers es) [] output A' input' output') :
    A' = answers es ∧ input' = [] ∧ output' = output := by
  cases es with
  | nil =>
    cases ha with
    | silent => exact ⟨rfl, rfl, rfl⟩
  | cons e es => exact advances_hear_nil ha

/-- What waits for an answer, and lags behind, says some more. -/
theorem Lags.advances (hA : Lags rest A acts)
    (hacts : ∀ A' input' output', Advances acts [] output A' input' output' →
      A' = acts ∧ input' = [] ∧ output' = output)
    (ha : Advances A [] output A' input' output') :
    ∃ now later, rest = now ++ later ∧ Lags later A' acts ∧ input' = [] ∧
      output' = output ++ now := by
  obtain rfl | ⟨rfl, rfl⟩ := hA
  · generalize hr : (.sayRest rest :: acts : List (Act β)) = lagging at ha
    generalize hi : ([] : List β) = input at ha
    cases ha with
    | silent => exact ⟨[], rest, rfl, Or.inl hr.symm, rfl, (List.append_nil _).symm⟩
    | @sayRest now later =>
      cases hr
      exact ⟨now, later, rfl, Or.inl rfl, rfl, rfl⟩
    | said h =>
      cases hr
      subst hi
      obtain ⟨rfl, rfl, rfl⟩ := hacts _ _ _ h
      exact ⟨[], [], rfl, Or.inr ⟨rfl, rfl⟩, rfl, (List.append_nil _).symm⟩
    | say | hear | hearRest | heard => cases hr
  · obtain ⟨rfl, rfl, rfl⟩ := hacts _ _ _ ha
    exact ⟨[], [], rfl, Or.inr ⟨rfl, rfl⟩, rfl, (List.append_nil _).symm⟩

theorem advances_say {input : List β}
    (ha : Advances (.say f :: acts) input output A' input' output') :
    (A' = .say f :: acts ∧ input' = input ∧ output' = output) ∨
      (A' = .sayRest f.body :: acts ∧ input' = input ∧ output' = output ++ f.header) := by
  cases ha with
  | silent => exact Or.inl ⟨rfl, rfl, rfl⟩
  | say => exact Or.inr ⟨rfl, rfl, rfl⟩

theorem advances_asks_nil (ha : Advances (asks es) [] output A' input' output') :
    (A' = asks es ∧ input' = [] ∧ output' = output) ∨
      ∃ e rest, es = e :: rest ∧ A' = .sayRest e.question.body :: .hear e.answer :: asks rest ∧
        input' = [] ∧ output' = output ++ e.question.header := by
  cases es with
  | nil =>
    cases ha with
    | silent => exact Or.inl ⟨rfl, rfl, rfl⟩
  | cons e es =>
    obtain h | ⟨hA, hi, ho⟩ := advances_say ha
    · exact Or.inl h
    · exact Or.inr ⟨e, es, rfl, hA, hi, ho⟩

/-- What waits for a frame, and lags behind with nothing, hears its header. -/
theorem Lags.hears {input : List β} (hA : Lags [] A (.hear f :: acts))
    (ha : Advances A input output A' input' output') :
    (Lags [] A' (.hear f :: acts) ∧ input' = input ∧ output' = output) ∨
      (A' = .hearRest f.body :: acts ∧ input = f.header ++ input' ∧ output' = output) := by
  have hhear : ∀ A', Advances (.hear f :: acts) input output A' input' output' →
      (Lags [] A' (.hear f :: acts) ∧ input' = input ∧ output' = output) ∨
        (A' = .hearRest f.body :: acts ∧ input = f.header ++ input' ∧ output' = output) := by
    intro A' ha
    cases ha with
    | silent => exact Or.inl ⟨Or.inr ⟨rfl, rfl⟩, rfl, rfl⟩
    | hear => exact Or.inr ⟨rfl, rfl, rfl⟩
  obtain rfl | ⟨-, rfl⟩ := hA
  · generalize hr : (.sayRest [] :: .hear f :: acts : List (Act β)) = lagging at ha
    cases ha with
    | silent => exact Or.inl ⟨Or.inl hr.symm, rfl, rfl⟩
    | @sayRest now later =>
      injection hr with hr hacts
      injection hr with hr
      obtain ⟨rfl, rfl⟩ := List.append_eq_nil_iff.mp hr.symm
      exact Or.inl ⟨Or.inl (hacts ▸ rfl), rfl, List.append_nil _⟩
    | said h =>
      cases hr
      exact hhear A' h
    | say | hear | hearRest | heard => cases hr
  · exact hhear A' ha

/-- What is heard of the rest of a body is what was there of it. -/
theorem advances_hearRest {there input : List β} (hb : there ++ rest ≠ [])
    (ha : Advances (.hearRest (there ++ rest) :: acts) there output A' input output') :
    A' = .hearRest (input ++ rest) :: acts ∧ output' = output := by
  generalize hr : (.hearRest (there ++ rest) :: acts : List (Act β)) = hearing at ha
  cases ha with
  | silent => exact ⟨hr.symm, rfl⟩
  | @hearRest now later acts input output =>
    injection hr with hr hacts
    injection hr with hr
    rw [List.append_assoc] at hr
    rw [List.append_cancel_left hr, hacts]
    exact ⟨rfl, rfl⟩
  | heard =>
    injection hr with hr
    injection hr with hr
    exact absurd hr hb
  | say | sayRest | said | hear => cases hr

/-- Nothing is left to wait for of a body that was heard. -/
def Settles (acts later : List (Act β)) : Prop := acts = later ∨ acts = .hearRest [] :: later

theorem Plays.settles {l : Limits} {again : α → Option (Program β α)} {E P : Process β α} {n : Nat}
    (hp : Plays l again E n P acts) (hs : Settles acts A) : Plays l again E n P A := by
  obtain rfl | rfl := hs
  · exact hp
  · exact hp.of_heard

/-- A step of the one who asks. -/
theorem Meeting.asker (hm : Meeting A B questions back)
    (ha : Advances A back questions A' input' output') :
    ∃ A'', Settles A' A'' ∧ Meeting A'' B output' input' := by
  cases hm with
  | @asking es B hB =>
    obtain ⟨rfl, rfl, rfl⟩ | ⟨e, es, rfl, rfl, rfl, rfl⟩ := advances_asks_nil ha
    · exact ⟨_, Or.inl rfl, .asking hB⟩
    · have hnext := Meeting.asked (List.nil_append e.question.body) (Or.inl rfl) hB
      rw [List.append_nil] at hnext
      exact ⟨_, Or.inl rfl, hnext⟩
  | @asked e es A B there rest hb hA hB =>
    obtain ⟨now, later, rfl, hA', rfl, rfl⟩ := hA.advances (fun _ _ _ => advances_hear_nil) ha
    rw [← List.append_assoc] at hb
    rw [List.append_assoc]
    exact ⟨_, Or.inl rfl, .asked hb hA' hB⟩
  | @hearing e es A there rest hb hA =>
    obtain ⟨now, later, rfl, hA', rfl, rfl⟩ := hA.advances (fun _ _ _ => advances_hear_nil) ha
    rw [← List.append_assoc] at hb ⊢
    exact ⟨_, Or.inl rfl, .hearing hb hA'⟩
  | @answering e es A hA =>
    obtain ⟨now, later, hr, hA', rfl, rfl⟩ := hA.advances (fun _ _ _ => advances_hear_nil) ha
    obtain ⟨rfl, rfl⟩ := List.append_eq_nil_iff.mp hr.symm
    exact ⟨_, Or.inl rfl, .answering hA'⟩
  | @answered e es A B there rest hb hA hB =>
    obtain ⟨hA', rfl, rfl⟩ | ⟨rfl, he, rfl⟩ := hA.hears ha
    · exact ⟨_, Or.inl rfl, .answered hb hA' hB⟩
    · obtain rfl := List.append_cancel_left he
      by_cases hne : e.answer.body = []
      · rw [hne] at hb ⊢
        obtain ⟨rfl, rfl⟩ := List.append_eq_nil_iff.mp hb
        exact ⟨_, Or.inr rfl, .asking hB⟩
      · rw [← hb] at hne ⊢
        exact ⟨_, Or.inl rfl, .receiving hne hB⟩
  | @receiving es B there rest hb hB =>
    obtain ⟨rfl, rfl⟩ := advances_hearRest hb ha
    by_cases hne : input' ++ rest = []
    · rw [hne]
      obtain ⟨rfl, rfl⟩ := List.append_eq_nil_iff.mp hne
      exact ⟨_, Or.inr rfl, .asking hB⟩
    · exact ⟨_, Or.inl rfl, .receiving hne hB⟩

/-- A step of the one who answers. -/
theorem Meeting.answerer (hm : Meeting A B questions back)
    (ha : Advances B questions back B' input' output') :
    ∃ B'', Settles B' B'' ∧ Meeting A B'' input' output' := by
  cases hm with
  | @asking es B hB =>
    obtain ⟨now, later, hr, hB', rfl, rfl⟩ := hB.advances (fun _ _ _ => advances_answers_nil) ha
    obtain ⟨rfl, rfl⟩ := List.append_eq_nil_iff.mp hr.symm
    exact ⟨_, Or.inl rfl, .asking hB'⟩
  | @asked e es A B there rest hb hA hB =>
    obtain ⟨hB', rfl, rfl⟩ | ⟨rfl, he, rfl⟩ := hB.hears ha
    · exact ⟨_, Or.inl rfl, .asked hb hA hB'⟩
    · obtain rfl := List.append_cancel_left he
      by_cases hne : e.question.body = []
      · rw [hne] at hb ⊢
        obtain ⟨rfl, rfl⟩ := List.append_eq_nil_iff.mp hb
        exact ⟨_, Or.inr rfl, .answering hA⟩
      · rw [← hb] at hne ⊢
        exact ⟨_, Or.inl rfl, .hearing hne hA⟩
  | @hearing e es A there rest hb hA =>
    obtain ⟨rfl, rfl⟩ := advances_hearRest hb ha
    by_cases hne : input' ++ rest = []
    · rw [hne]
      obtain ⟨rfl, rfl⟩ := List.append_eq_nil_iff.mp hne
      exact ⟨_, Or.inr rfl, .answering hA⟩
    · exact ⟨_, Or.inl rfl, .hearing hne hA⟩
  | @answering e es A hA =>
    obtain ⟨rfl, rfl, rfl⟩ | ⟨rfl, rfl, rfl⟩ := advances_say ha
    · exact ⟨_, Or.inl rfl, .answering hA⟩
    · have hnext := Meeting.answered (List.nil_append e.answer.body) hA (Or.inl rfl)
      rw [List.append_nil] at hnext
      exact ⟨_, Or.inl rfl, hnext⟩
  | @answered e es A B there rest hb hA hB =>
    obtain ⟨now, later, rfl, hB', rfl, rfl⟩ := hB.advances (fun _ _ _ => advances_answers_nil) ha
    rw [← List.append_assoc] at hb
    rw [List.append_assoc]
    exact ⟨_, Or.inl rfl, .answered hb hA hB'⟩
  | @receiving es B there rest hb hB =>
    obtain ⟨now, later, rfl, hB', rfl, rfl⟩ := hB.advances (fun _ _ _ => advances_answers_nil) ha
    rw [← List.append_assoc] at hb ⊢
    exact ⟨_, Or.inl rfl, .receiving hb hB'⟩

theorem Lags.fed {input : List β} (hA : Lags [] A acts) (hf : Fed acts input) : Fed A input := by
  obtain rfl | ⟨-, rfl⟩ := hA
  · exact hf
  · exact hf

/-- Nothing is in a pipe that is not to be heard next. -/
theorem Meeting.fed (hm : Meeting A B questions back) : Fed A back ∧ Fed B questions := by
  cases hm with
  | asking => exact ⟨fed_nil _, fed_nil _⟩
  | asked _ _ hB => exact ⟨fed_nil _, hB.fed (Or.inr (List.prefix_append _ _))⟩
  | hearing => exact ⟨fed_nil _, List.prefix_append _ _⟩
  | answering => exact ⟨fed_nil _, fed_nil _⟩
  | answered _ hA => exact ⟨hA.fed (Or.inr (List.prefix_append _ _)), fed_nil _⟩
  | receiving => exact ⟨List.prefix_append _ _, fed_nil _⟩

variable {l : Limits} {asksAgain : α → Option (Program β α)} {again : γ → Option (Program β γ)}
  {C E : Process β α} {R F : Process β γ} {m n : Nat}

theorem Lags.can_hear {δ : Type} {next : δ → Option (Program β δ)} {G P : Process β δ}
    {input : List β} (hA : Lags [] A (.hear f :: acts)) (hi : input ≠ [])
    (hp : Plays l next G n P A) :
    ∃ P' input' output', Step l next P input [] P' input' output' := by
  obtain rfl | ⟨-, rfl⟩ := hA
  · obtain h | hp := hp.can_said
    · exact h
    · exact hp.can_hear hi
  · exact hp.can_hear hi

/-- One of the two can go on until all is said and heard. -/
theorem Meeting.goes_on (hm : Meeting A B questions back) (hA : Plays l asksAgain E m C A)
    (hB : Plays l again F n R B) :
    (∃ t, Connected.Step l asksAgain again ⟨C, R, questions, back⟩ t) ∨
      (⟨C, R, questions, back⟩ : Connected β α γ) = ⟨E, F, [], []⟩ := by
  cases hm with
  | @asking es B hl =>
    cases es with
    | nil =>
      obtain ⟨_, _, _, h⟩ | rfl := hA.can_end
      · exact Or.inl ⟨_, .asker h⟩
      have hend : Plays l again F n R [] → (∃ t, Connected.Step l asksAgain again
          ⟨C, R, [], []⟩ t) ∨ (⟨C, R, [], []⟩ : Connected β α γ) = ⟨C, F, [], []⟩ := by
        intro hB
        obtain ⟨_, _, _, h⟩ | rfl := hB.can_end
        · exact Or.inl ⟨_, .answerer h⟩
        · exact Or.inr rfl
      obtain rfl | ⟨-, rfl⟩ := hl
      · obtain ⟨_, _, _, h⟩ | hB := hB.can_said
        · exact Or.inl ⟨_, .answerer h⟩
        · exact hend hB
      · exact hend hB
    | cons e es =>
      obtain ⟨_, _, _, h⟩ := hA.can_say
      exact Or.inl ⟨_, .asker h⟩
  | @asked e es A B there rest _ _ hl =>
    have hne : e.question.header ++ there ≠ [] := fun h =>
      e.question.header_ne (List.append_eq_nil_iff.mp h).1
    obtain ⟨_, _, _, h⟩ := hl.can_hear hne hB
    exact Or.inl ⟨_, .answerer h⟩
  | hearing hb hl =>
    by_cases ht : questions = []
    · subst ht
      obtain rfl | ⟨rfl, -⟩ := hl
      · obtain ⟨_, _, _, h⟩ := hA.can_sayRest hb
        exact Or.inl ⟨_, .asker h⟩
      · exact absurd rfl hb
    · obtain ⟨_, _, _, h⟩ := hB.can_hearRest ht hb
      exact Or.inl ⟨_, .answerer h⟩
  | answering =>
    obtain ⟨_, _, _, h⟩ := hB.can_say
    exact Or.inl ⟨_, .answerer h⟩
  | @answered e es A B there rest _ hl =>
    have hne : e.answer.header ++ there ≠ [] := fun h =>
      e.answer.header_ne (List.append_eq_nil_iff.mp h).1
    obtain ⟨_, _, _, h⟩ := hl.can_hear hne hA
    exact Or.inl ⟨_, .asker h⟩
  | receiving hb hl =>
    by_cases ht : back = []
    · subst ht
      obtain rfl | ⟨rfl, -⟩ := hl
      · obtain ⟨_, _, _, h⟩ := hB.can_sayRest hb
        exact Or.inl ⟨_, .answerer h⟩
      · exact absurd rfl hb
    · obtain ⟨_, _, _, h⟩ := hA.can_hearRest ht hb
      exact Or.inl ⟨_, .asker h⟩

/-- A state of the two in which so many steps at most are to come. -/
def Keeps (l : Limits) (asksAgain : α → Option (Program β α))
    (again : γ → Option (Program β γ)) (E : Process β α) (F : Process β γ) (k : Nat)
    (s : Connected β α γ) : Prop :=
  ∃ m n A B, m + n = k ∧ Plays l asksAgain E m s.asker A ∧ Plays l again F n s.answerer B ∧
    Meeting A B s.questions s.answers

theorem keeps_step (hE : Halted l asksAgain E) (hF : Halted l again F) {k : Nat}
    {s t : Connected β α γ} (hs : Keeps l asksAgain again E F k s)
    (ht : Connected.Step l asksAgain again s t) :
    ∃ k' < k, Keeps l asksAgain again E F k' t := by
  obtain ⟨m, n, A, B, rfl, hA, hB, hm⟩ := hs
  obtain ⟨hfa, hfb⟩ := hm.fed
  cases ht with
  | asker h =>
    obtain ⟨m', hlt, A', hA', ha⟩ := hA.step hE hfa h
    obtain ⟨A'', hs, hm'⟩ := hm.asker ha
    exact ⟨m' + n, by omega, m', n, A'', B, rfl, hA'.settles hs, hB, hm'⟩
  | answerer h =>
    obtain ⟨n', hlt, B', hB', ha⟩ := hB.step hF hfb h
    obtain ⟨B'', hs, hm'⟩ := hm.answerer ha
    exact ⟨m + n', by omega, m, n', A, B'', rfl, hA, hB'.settles hs, hm'⟩

/-- A process that asks some questions and hears their answers, and one that answers them: the
two come to an end with each other in every run, whatever the pipes hold and however the bytes
are split. -/
theorem completes (hE : Halted l asksAgain E) (hF : Halted l again F)
    (hC : Plays l asksAgain E m C (asks es)) (hR : Plays l again F n R (answers es)) :
    Completes (Connected.Step l asksAgain again) ⟨C, R, [], []⟩ ⟨E, F, [], []⟩ := by
  refine completes_of_measure (I := Keeps l asksAgain again E F) ?_ ?_ ?_
  · exact ⟨_, m, n, _, _, rfl, hC, hR, .asking (Or.inr ⟨rfl, rfl⟩)⟩
  · exact fun _ _ _ hs ht => keeps_step hE hF hs ht
  · rintro k ⟨C, R, questions, back⟩ ⟨m, n, A, B, -, hA, hB, hm⟩
    exact hm.goes_on hA hB

end

end VpTesting.Dialogues

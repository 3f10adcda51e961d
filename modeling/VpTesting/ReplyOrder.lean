import Mathlib.Data.List.Basic

namespace VpTesting.ReplyOrder

/-- What a call did to a channel of replies: the units of the reply to it, the units it took from
the front, whether it took an answer, and what it returned. -/
structure Taking where
  size : Nat
  taken : Nat
  answered : Bool
  result : Bool

/-- What the calls so far returned, and for each unit in the channel the number of the call that
it is the reply to. -/
structure Log where
  results : List Bool := []
  marks : List Nat := []

namespace Log

/-- The units that a call finds in the channel. -/
def found (l : Log) (r : Taking) : List Nat := l.marks ++ List.replicate r.size l.results.length

def next (l : Log) (r : Taking) : Log where
  results := l.results ++ [r.result]
  marks := (l.found r).drop r.taken

/-- The answer is from the reply to an earlier call, and that call returned false. -/
def Shifted (l : Log) (r : Taking) : Prop :=
  r.answered = true ∧ ∃ j, (l.found r).head? = some j ∧ l.results[j]? = some false

/-- Something is left in the channel, and all of it from calls that returned false. -/
def Stale (l : Log) : Prop := l.marks ≠ [] ∧ ∀ j ∈ l.marks, l.results[j]? = some false

variable {l : Log} {r : Taking}

theorem not_shifted (hl : l.marks = []) : ¬l.Shifted r := by
  rintro ⟨-, j, hj, hr⟩
  have hmem : j ∈ List.replicate r.size l.results.length := by
    rw [found, hl, List.nil_append] at hj
    exact List.mem_of_head? hj
  obtain ⟨-, rfl⟩ := List.mem_replicate.mp hmem
  rw [List.getElem?_eq_none (Nat.le_refl _)] at hr
  cases hr

theorem Stale.shifted (hl : l.Stale) (ha : r.answered = true) : l.Shifted r := by
  obtain ⟨hne, hfalse⟩ := hl
  refine ⟨ha, l.marks.head hne, ?_, hfalse _ (List.head_mem hne)⟩
  rw [found, List.head?_append_of_ne_nil _ hne, List.head?_eq_some_head hne]

theorem marks_next (hl : l.marks = []) (ht : r.taken = r.size) : (l.next r).marks = [] := by
  rw [next, found, hl, List.nil_append, ht, List.drop_replicate, Nat.sub_self,
    List.replicate_zero]

theorem result_of_mem_found (hl : ∀ j ∈ l.marks, l.results[j]? = some false)
    (hr : r.result = false) : ∀ j ∈ l.found r, (l.next r).results[j]? = some false := by
  intro j hj
  obtain hj | hj := List.mem_append.mp hj
  · obtain ⟨hlt, -⟩ := List.getElem?_eq_some_iff.mp (hl j hj)
    rw [next, List.getElem?_append_left hlt, hl j hj]
  · obtain ⟨-, rfl⟩ := List.mem_replicate.mp hj
    rw [next, List.getElem?_concat_length, hr]

theorem stale_next (hl : ∀ j ∈ l.marks, l.results[j]? = some false) (hr : r.result = false)
    (ht : r.taken < (l.found r).length) : (l.next r).Stale := by
  refine ⟨?_, fun j hj => result_of_mem_found hl hr j (List.mem_of_mem_drop hj)⟩
  exact List.ne_nil_of_length_pos (by rw [next, List.length_drop]; omega)

/-- A call that returns false with its reply not taken, or not to the end, leaves it behind. -/
theorem stale_next_of_nil (hl : l.marks = []) (hr : r.result = false) (ht : r.taken < r.size) :
    (l.next r).Stale := by
  refine stale_next ?_ hr ?_
  · rw [hl]
    exact List.forall_mem_nil _
  · rw [found, hl, List.nil_append, List.length_replicate]
    exact ht

theorem Stale.next (hl : l.Stale) (hr : r.result = false) (ht : r.taken ≤ r.size) :
    (l.next r).Stale := by
  refine stale_next hl.2 hr ?_
  have hpos := List.length_pos_iff.mpr hl.1
  rw [found, List.length_append, List.length_replicate]
  omega

/-- No call takes its answer from the reply to an earlier call that returned false. -/
def Kept : Log → List Taking → Prop
  | _, [] => True
  | l, r :: rs => ¬l.Shifted r ∧ Kept (l.next r) rs

end Log

/-- Calls over a channel, in whose state they leave something or nothing behind. -/
structure Transport (ε τ : Type) where
  call : ε → τ → Option (Taking × τ)
  Idle : τ → Prop
  /-- The call takes an answer, its own or another. -/
  Answers : ε → Prop
  /-- The call does not take all of the reply to it. -/
  Unfinished : ε → Prop
  /-- If the call does not take all of the reply to it, it returns false. -/
  Regular : ε → Prop
  answered_iff_answers : ∀ {e s r t}, call e s = some (r, t) → (r.answered = true ↔ Answers e)
  unanswered : ∀ {e s r t}, call e s = some (r, t) → ¬Answers e →
    r.result = false ∧ r.taken ≤ r.size
  finished : ∀ {e s r t}, call e s = some (r, t) → Idle s → ¬Unfinished e →
    r.taken = r.size ∧ Idle t
  unfinished : ∀ {e s r t}, call e s = some (r, t) → Idle s → Unfinished e → r.taken < r.size
  failed : ∀ {e s r t}, call e s = some (r, t) → Idle s → Unfinished e → Regular e →
    r.result = false

namespace Transport

variable {ε τ : Type} (T : Transport ε τ)

/-- Successive calls that all return. -/
def session : List ε → τ → Option (List Taking)
  | [], _ => some []
  | e :: es, s => (T.call e s).bind fun r => (session es r.2).map (r.1 :: ·)

/-- No call takes an answer after one that does not take all of the reply to it. -/
def Orderly (es : List ε) : Prop := es.Pairwise fun e e' => T.Unfinished e → ¬T.Answers e'

variable {T} {l : Log} {e : ε} {es : List ε} {s : τ} {rs : List Taking}

theorem session_cons (hs : T.session (e :: es) s = some rs) :
    ∃ r t rest, T.call e s = some (r, t) ∧ T.session es t = some rest ∧ rs = r :: rest := by
  obtain ⟨⟨r, t⟩, hr, hs⟩ := Option.bind_eq_some_iff.mp hs
  obtain ⟨rest, hrest, rfl⟩ := Option.map_eq_some_iff.mp hs
  exact ⟨r, t, rest, hr, hrest, rfl⟩

theorem kept_of_not_answers (hs : T.session es s = some rs) (ha : ∀ e ∈ es, ¬T.Answers e) :
    l.Kept rs := by
  induction es generalizing l s rs with
  | nil =>
    cases hs
    exact trivial
  | cons e es ih =>
    obtain ⟨r, t, rest, hr, hrest, rfl⟩ := session_cons hs
    obtain ⟨he, hes⟩ := List.forall_mem_cons.mp ha
    refine ⟨?_, ih hrest hes⟩
    rintro ⟨hanswered, -⟩
    exact he ((T.answered_iff_answers hr).mp hanswered)

theorem not_answers_of_stale (hl : l.Stale) (hs : T.session es s = some rs) (hk : l.Kept rs) :
    ∀ e ∈ es, ¬T.Answers e := by
  induction es generalizing l s rs with
  | nil => exact List.forall_mem_nil _
  | cons e es ih =>
    obtain ⟨r, t, rest, hr, hrest, rfl⟩ := session_cons hs
    obtain ⟨hr', hk⟩ := hk
    have he : ¬T.Answers e := fun ha => hr' (hl.shifted ((T.answered_iff_answers hr).mpr ha))
    obtain ⟨hfalse, htaken⟩ := T.unanswered hr he
    exact List.forall_mem_cons.mpr ⟨he, ih (hl.next hfalse htaken) hrest hk⟩

/-- In an orderly session no answer is shifted. -/
theorem kept_of_orderly (hi : T.Idle s) (hl : l.marks = []) (hs : T.session es s = some rs)
    (ho : T.Orderly es) : l.Kept rs := by
  induction es generalizing l s rs with
  | nil =>
    cases hs
    exact trivial
  | cons e es ih =>
    obtain ⟨r, t, rest, hr, hrest, rfl⟩ := session_cons hs
    obtain ⟨he, hes⟩ := List.pairwise_cons.mp ho
    refine ⟨Log.not_shifted hl, ?_⟩
    by_cases hu : T.Unfinished e
    · exact kept_of_not_answers hrest fun e' hmem => he e' hmem hu
    · obtain ⟨htaken, ht⟩ := T.finished hr hi hu
      exact ih ht (Log.marks_next hl htaken) hrest hes

/-- And if all that is left behind is from calls that returned false, in no other. -/
theorem orderly_of_kept (hi : T.Idle s) (hl : l.marks = []) (hs : T.session es s = some rs)
    (hreg : ∀ e ∈ es, T.Regular e) (hk : l.Kept rs) : T.Orderly es := by
  induction es generalizing l s rs with
  | nil => exact .nil
  | cons e es ih =>
    obtain ⟨r, t, rest, hr, hrest, rfl⟩ := session_cons hs
    obtain ⟨he, hes⟩ := List.forall_mem_cons.mp hreg
    obtain ⟨-, hk⟩ := hk
    by_cases hu : T.Unfinished e
    · have hstale := Log.stale_next_of_nil hl (T.failed hr hi hu he) (T.unfinished hr hi hu)
      have hno := not_answers_of_stale hstale hrest hk
      refine List.pairwise_cons.mpr ⟨fun e' hmem _ => hno e' hmem, ?_⟩
      exact List.pairwise_of_forall_mem_list fun _ _ e₂ hmem _ => hno e₂ hmem
    · obtain ⟨htaken, ht⟩ := T.finished hr hi hu
      refine List.pairwise_cons.mpr ⟨fun _ _ hu' => absurd hu' hu, ?_⟩
      exact ih ht (Log.marks_next hl htaken) hrest hes hk

end Transport

end VpTesting.ReplyOrder

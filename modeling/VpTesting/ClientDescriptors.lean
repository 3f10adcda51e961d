import Mathlib.Tactic.SplitIfs
import VpTesting.Descriptors

namespace VpTesting.ClientDescriptors

open VpTesting.Descriptors

/-- The descriptors of a client on pipes. What the constructor does not initialize holds any
numbers. -/
structure PipeClient where
  mSpecificFds : Bool
  mRequestFd : Int
  mResponseFd : Int
  mRequestPipe : Int × Int
  mResponsePipe : Int × Int

/-- How the system calls of `start` end: the descriptors that the two pipes get, and whether the
two calls of `dup2` succeed. -/
structure Outcomes where
  requestPipe : Option (Int × Int)
  responsePipe : Option (Int × Int)
  dupRequest : Bool
  dupResponse : Bool

structure Started where
  result : Bool
  client : PipeClient
  kernel : Kernel

namespace PipeClient

variable (c : PipeClient)

def start (o : Outcomes) (k : Kernel) : Started :=
  match o.requestPipe with
  | none => ⟨false, c, k⟩
  | some mRequestPipe =>
    let c := { c with mRequestPipe }
    let k := k.pipe mRequestPipe
    match o.responsePipe with
    | none => ⟨false, c, k⟩
    | some mResponsePipe =>
      let c := { c with mResponsePipe }
      let k := k.pipe mResponsePipe
      if c.mSpecificFds then
        if o.dupRequest then
          let k := k.dup2 c.mRequestPipe.1 c.mRequestFd
          if o.dupResponse then ⟨true, c, k.dup2 c.mResponsePipe.2 c.mResponseFd⟩
          else ⟨false, c, k⟩
        else ⟨false, c, k⟩
      else ⟨true, c, k⟩

def getRequestFd : Int := if c.mSpecificFds then c.mRequestFd else c.mRequestPipe.1

def getResponseFd : Int := if c.mSpecificFds then c.mResponseFd else c.mResponsePipe.2

/-- The descriptors that the destructor closes, in its order. -/
def closed : List Int :=
  [c.mRequestFd, c.mResponseFd, c.mRequestPipe.1, c.mRequestPipe.2, c.mResponsePipe.1,
    c.mResponsePipe.2]

/-- The descriptors that the client itself writes to and reads from. -/
def Uses (fd : Int) : Prop := fd = c.mRequestPipe.2 ∨ fd = c.mResponsePipe.1

end PipeClient

/-- The numbers that the system gives are free. -/
structure Possible (k : Kernel) (o : Outcomes) : Prop where
  request : ∀ fds, o.requestPipe = some fds → k.Free fds
  response : ∀ fds fds', o.requestPipe = some fds → o.responsePipe = some fds' →
    (k.pipe fds).Free fds'

/-- A client whose `start` was called, the numbers of its pipes, and the descriptors of the process
that was forked if it succeeded. -/
structure Launched where
  started : Bool
  client : PipeClient
  request : Nat
  response : Nat
  child : Table

/-- The client writes where the other process reads its requests, and reads where it writes its
responses. -/
structure Linked (t : Table) (l : Launched) : Prop where
  requests : t l.client.mRequestPipe.2 = some (.writeEnd l.request)
  requestFd : l.child l.client.getRequestFd = some (.readEnd l.request)
  responses : t l.client.mResponsePipe.1 = some (.readEnd l.response)
  responseFd : l.child l.client.getResponseFd = some (.writeEnd l.response)

/-- A process with its clients. -/
structure System where
  kernel : Kernel
  clients : List Launched := []

inductive Action
  | launch (c : PipeClient) (o : Outcomes)
  | destroy (n : Nat)

namespace System

def launch (s : System) (c : PipeClient) (o : Outcomes) : System :=
  let r := c.start o s.kernel
  { kernel := r.kernel
    clients := ⟨r.result, r.client, s.kernel.pipes, s.kernel.pipes + 1, r.kernel.table⟩ ::
      s.clients }

def act (s : System) : Action → System
  | .launch c o => s.launch c o
  | .destroy n =>
    match s.clients[n]? with
    | none => s
    | some l => { kernel := s.kernel.closeAll l.client.closed, clients := s.clients.eraseIdx n }

/-- Every client is linked to the process that was forked for it. -/
def AllLinked (s : System) : Prop := ∀ l ∈ s.clients, l.started = true → Linked s.kernel.table l

/-- No client that was started uses the descriptor. -/
def Spared (clients : List Launched) (fd : Int) : Prop :=
  ∀ l ∈ clients, l.started = true → ¬l.client.Uses fd

end System

/-- The descriptors that `dup2` makes stand for ends of the pipes. -/
def PipeClient.targets (c : PipeClient) (o : Outcomes) : List Int :=
  if o.requestPipe.isSome ∧ o.responsePipe.isSome ∧ c.mSpecificFds ∧ o.dupRequest then
    if o.dupResponse then [c.mRequestFd, c.mResponseFd] else [c.mRequestFd]
  else []

/-- The specific descriptors are apart from those of the pipes, but for the ends that they are to
stand for, or that are not needed any more. -/
def PipeClient.Apart (c : PipeClient) : Prop :=
  c.mRequestFd ∉ [c.mRequestPipe.2, c.mResponsePipe.1, c.mResponsePipe.2] ∧
    c.mResponseFd ∉ [c.mRequestPipe.2, c.mResponsePipe.1, c.mRequestFd]

section

variable {t : Table} {a b c d fd R S : Int} {p : Nat}

/-- The ends of two pipes with their descriptors. -/
structure TwoPipes (t : Table) (a b c d : Int) (p : Nat) : Prop where
  requestRead : t a = some (.readEnd p)
  requestWrite : t b = some (.writeEnd p)
  responseRead : t c = some (.readEnd (p + 1))
  responseWrite : t d = some (.writeEnd (p + 1))

theorem twoPipes_pipe {k : Kernel} (hr : k.Free (a, b)) (hs : (k.pipe (a, b)).Free (c, d)) :
    TwoPipes ((k.pipe (a, b)).pipe (c, d)).table a b c d k.pipes :=
  ⟨Kernel.table_pipe hs (Kernel.table_pipe_read hr), Kernel.table_pipe hs Kernel.table_pipe_write,
    Kernel.table_pipe_read hs, Kernel.table_pipe_write⟩

/-- The table behind both calls of `dup2`. -/
def duplicated (t : Table) (a d R S : Int) : Table :=
  let t := Function.update t R (t a)
  Function.update t S (t d)

theorem duplicated_of_mem (ht : TwoPipes t a b c d p) (hm : fd ∈ [R, S]) :
    ∃ new, duplicated t a d R S fd = some new ∧ (new = .readEnd p ∨ new = .writeEnd (p + 1)) := by
  by_cases hS : fd = S
  · have hd : duplicated t a d R S fd = Function.update t R (t a) d := by
      rw [hS]
      exact Function.update_self ..
    by_cases hR : d = R
    · have hv : Function.update t R (t a) d = t a := by rw [hR, Function.update_self]
      exact ⟨_, hd.trans (hv.trans ht.requestRead), Or.inl rfl⟩
    · rw [Function.update_of_ne hR, ht.responseWrite] at hd
      exact ⟨_, hd, Or.inr rfl⟩
  · have hR : fd = R := by simpa [hS] using hm
    have ha : duplicated t a d R S fd = t a := by
      rw [duplicated, Function.update_of_ne hS, hR, Function.update_self]
    exact ⟨_, ha.trans ht.requestRead, Or.inl rfl⟩

theorem duplicated_of_not_mem (hm : fd ∉ [R, S]) : duplicated t a d R S fd = t fd := by
  obtain ⟨hR, hS⟩ : fd ≠ R ∧ fd ≠ S := by simpa using hm
  rw [duplicated, Function.update_of_ne hS, Function.update_of_ne hR]

theorem linked_duplicated_iff (ht : TwoPipes t a b c d p) :
    (duplicated t a d R S b = some (.writeEnd p) ∧ duplicated t a d R S R = some (.readEnd p) ∧
      duplicated t a d R S c = some (.readEnd (p + 1)) ∧
      duplicated t a d R S S = some (.writeEnd (p + 1))) ↔ R ∉ [b, c, d] ∧ S ∉ [b, c, R] := by
  have hS : duplicated t a d R S S = Function.update t R (t a) d := Function.update_self ..
  simp only [List.mem_cons, List.not_mem_nil, or_false, not_or]
  constructor
  · rintro ⟨hb, hR, hc, hw⟩
    refine ⟨⟨?_, ?_, ?_⟩, ?_, ?_, ?_⟩
    · rintro rfl
      rw [hR] at hb
      cases hb
    · rintro rfl
      rw [hR] at hc
      have hp := File.readEnd.inj (Option.some.inj hc)
      omega
    · rintro rfl
      rw [hS, Function.update_self, ht.requestRead] at hw
      cases hw
    · rintro rfl
      rw [hw] at hb
      have hp := File.writeEnd.inj (Option.some.inj hb)
      omega
    · rintro rfl
      rw [hw] at hc
      cases hc
    · rintro rfl
      rw [hw] at hR
      cases hR
  · rintro ⟨⟨hRb, hRc, hRd⟩, hSb, hSc, hSR⟩
    have hne {fd : Int} (h : S ≠ fd) : duplicated t a d R S fd = Function.update t R (t a) fd :=
      Function.update_of_ne (Ne.symm h) ..
    rw [hS, hne hSb, hne hSR, hne hSc, Function.update_self, Function.update_of_ne (Ne.symm hRb),
      Function.update_of_ne (Ne.symm hRc), Function.update_of_ne (Ne.symm hRd)]
    exact ⟨ht.requestWrite, ht.requestRead, ht.responseRead, ht.responseWrite⟩

end

section

variable {c : PipeClient} {o : Outcomes} {k : Kernel} {fd : Int} {file : File}

/-- A file that was not open before. -/
def New (k : Kernel) (file : File) : Prop :=
  file = .readEnd k.pipes ∨ file = .writeEnd (k.pipes + 1)

/-- What happens to a descriptor that is open when `start` is called. -/
theorem table_start (hp : Possible k o) (ho : k.table fd = some file) :
    (fd ∉ c.targets o → (c.start o k).kernel.table fd = some file) ∧
      (fd ∈ c.targets o → ∃ new, (c.start o k).kernel.table fd = some new ∧ New k new) := by
  obtain ⟨requestPipe, responsePipe, dupRequest, dupResponse⟩ := o
  cases requestPipe with
  | none => simpa [PipeClient.start, PipeClient.targets] using ho
  | some request =>
    have hr := hp.request request rfl
    cases responsePipe with
    | none => simpa [PipeClient.start, PipeClient.targets] using Kernel.table_pipe hr ho
    | some response =>
      have hs := hp.response request response rfl rfl
      have ht := twoPipes_pipe hr hs
      have ho' := Kernel.table_pipe hs (Kernel.table_pipe hr ho)
      by_cases hdup : c.mSpecificFds = true ∧ dupRequest = true
      · obtain ⟨hspecific, hrequest⟩ := hdup
        cases dupResponse with
        | false =>
          simp only [PipeClient.start, PipeClient.targets, hspecific, hrequest, if_true,
            Option.isSome_some, and_self, Bool.false_eq_true, if_false, List.mem_singleton]
          constructor
          · intro hne
            rw [Kernel.table_dup2 hne, ho']
          · rintro rfl
            exact ⟨_, Kernel.table_dup2_self.trans ht.requestRead, Or.inl rfl⟩
        | true =>
          simp only [PipeClient.start, PipeClient.targets, hspecific, hrequest, if_true,
            Option.isSome_some, and_self]
          exact ⟨fun hm => (duplicated_of_not_mem hm).trans ho', fun hm => duplicated_of_mem ht hm⟩
      · have hn : c.targets ⟨some request, some response, dupRequest, dupResponse⟩ = [] :=
          if_neg fun h => hdup h.2.2
        rw [hn]
        refine ⟨fun _ => ?_, fun hm => absurd hm List.not_mem_nil⟩
        cases hspecific : c.mSpecificFds with
        | false => simpa [PipeClient.start, hspecific] using ho'
        | true =>
          have hrequest : dupRequest = false := Bool.eq_false_iff.mpr fun h => hdup ⟨hspecific, h⟩
          simpa [PipeClient.start, hspecific, hrequest] using ho'

theorem pipes_le_start (c : PipeClient) (o : Outcomes) (k : Kernel) :
    k.pipes ≤ (c.start o k).kernel.pipes := by
  obtain ⟨requestPipe, responsePipe, dupRequest, dupResponse⟩ := o
  obtain ⟨mSpecificFds, mRequestFd, mResponseFd, _, _⟩ := c
  cases requestPipe with
  | none => exact Nat.le_refl _
  | some request =>
    cases responsePipe with
    | none => exact Nat.le_succ _
    | some response =>
      have hle : k.pipes ≤ k.pipes + 2 := Nat.le_add_right _ 2
      cases mSpecificFds with
      | false => exact hle
      | true =>
        cases dupRequest with
        | false => exact hle
        | true =>
          cases dupResponse with
          | false => exact hle
          | true => exact hle

/-- A client that was started, whatever else is open. -/
theorem linked_start_iff (hp : Possible k o) (hs : (c.start o k).result = true) :
    (c.start o k).kernel.pipes = k.pipes + 2 ∧
      (Linked (c.start o k).kernel.table ⟨(c.start o k).result, (c.start o k).client, k.pipes,
          k.pipes + 1, (c.start o k).kernel.table⟩ ↔
        (c.mSpecificFds = true → (c.start o k).client.Apart)) := by
  obtain ⟨requestPipe, responsePipe, dupRequest, dupResponse⟩ := o
  obtain ⟨mSpecificFds, mRequestFd, mResponseFd, _, _⟩ := c
  cases requestPipe with
  | none => cases hs
  | some request =>
    cases responsePipe with
    | none => cases hs
    | some response =>
      have ht := twoPipes_pipe (hp.request request rfl) (hp.response request response rfl rfl)
      cases mSpecificFds with
      | false =>
        refine ⟨rfl, iff_of_true ?_ fun h => absurd h Bool.false_ne_true⟩
        exact ⟨ht.requestWrite, ht.requestRead, ht.responseRead, ht.responseWrite⟩
      | true =>
        cases dupRequest with
        | false => cases hs
        | true =>
          cases dupResponse with
          | false => cases hs
          | true =>
            have hd := @linked_duplicated_iff _ _ _ _ _ mRequestFd mResponseFd _ ht
            refine ⟨rfl, ?_⟩
            rw [forall_prop_of_true rfl]
            constructor
            · rintro ⟨hb, hR, hc, hS⟩
              exact hd.mp ⟨hb, hR, hc, hS⟩
            · intro ha
              obtain ⟨hb, hR, hc, hS⟩ := hd.mpr ha
              exact ⟨hb, hR, hc, hS⟩

end

namespace System

/-- The numbers of the pipes of the clients were given before. -/
def Named (s : System) : Prop :=
  ∀ l ∈ s.clients, l.started = true →
    l.request < s.kernel.pipes ∧ l.response < s.kernel.pipes

/-- What an action needs to do no harm: `start` makes specific descriptors only of those that no
client uses, and apart from its own pipes; the destructor closes none that another client uses. -/
def Harmless (s : System) : Action → Prop
  | .launch c o => (∀ fd ∈ c.targets o, Spared s.clients fd) ∧
      ((c.start o s.kernel).result = true → c.mSpecificFds = true →
        (c.start o s.kernel).client.Apart)
  | .destroy n => ∀ l, s.clients[n]? = some l →
      ∀ fd ∈ l.client.closed, Spared (s.clients.eraseIdx n) fd

/-- The system gives only free descriptors. -/
def Allows (s : System) : Action → Prop
  | .launch _ o => Possible s.kernel o
  | .destroy _ => True

section

variable {s : System} {l : Launched} {c : PipeClient} {o : Outcomes}

theorem linked_launch_iff (hp : Possible s.kernel o) (hl : Linked s.kernel.table l)
    (hn : l.request < s.kernel.pipes ∧ l.response < s.kernel.pipes) :
    Linked (c.start o s.kernel).kernel.table l ↔ ∀ fd ∈ c.targets o, ¬l.client.Uses fd := by
  obtain ⟨hold, hnew⟩ := table_start (c := c) hp hl.requests
  obtain ⟨hold', hnew'⟩ := table_start (c := c) hp hl.responses
  constructor
  · rintro hl' fd hm (rfl | rfl)
    · obtain ⟨file, hf, rfl | rfl⟩ := hnew hm
      · rw [hl'.requests] at hf
        cases hf
      · rw [hl'.requests] at hf
        have he := File.writeEnd.inj (Option.some.inj hf)
        omega
    · obtain ⟨file, hf, rfl | rfl⟩ := hnew' hm
      · rw [hl'.responses] at hf
        have he := File.readEnd.inj (Option.some.inj hf)
        omega
      · rw [hl'.responses] at hf
        cases hf
  · intro ht
    exact ⟨hold fun hm => ht _ hm (Or.inl rfl), hl.requestFd,
      hold' fun hm => ht _ hm (Or.inr rfl), hl.responseFd⟩

theorem linked_closeAll_iff {fds : List Int} (hl : Linked s.kernel.table l) :
    Linked (s.kernel.closeAll fds).table l ↔ ∀ fd ∈ fds, ¬l.client.Uses fd := by
  constructor
  · rintro hl' fd hm (rfl | rfl)
    · have hf := hl'.requests
      rw [Kernel.table_closeAll, if_pos hm] at hf
      cases hf
    · have hf := hl'.responses
      rw [Kernel.table_closeAll, if_pos hm] at hf
      cases hf
  · intro ht
    refine ⟨?_, hl.requestFd, ?_, hl.responseFd⟩
    · rw [Kernel.table_closeAll, if_neg fun hm => ht _ hm (Or.inl rfl)]
      exact hl.requests
    · rw [Kernel.table_closeAll, if_neg fun hm => ht _ hm (Or.inr rfl)]
      exact hl.responses

theorem named_act {a : Action} (hn : s.Named) (hp : s.Allows a) : (s.act a).Named := by
  cases a with
  | launch c o =>
    intro l hl hs
    obtain rfl | hl := List.mem_cons.mp hl
    · have hk := (linked_start_iff hp hs).1
      have hk' : (s.act (.launch c o)).kernel.pipes = s.kernel.pipes + 2 := hk
      rw [hk']
      exact ⟨Nat.lt_add_of_pos_right (by decide), Nat.lt_succ_self _⟩
    · have hle := pipes_le_start c o s.kernel
      obtain ⟨hrequest, hresponse⟩ := hn l hl hs
      exact ⟨Nat.lt_of_lt_of_le hrequest hle, Nat.lt_of_lt_of_le hresponse hle⟩
  | destroy n =>
    rw [act]
    cases s.clients[n]? with
    | none => exact hn
    | some l' =>
      intro l hl hs
      simp only [Kernel.pipes_closeAll]
      exact hn l (List.mem_of_mem_eraseIdx hl) hs

/-- An action keeps all clients linked exactly if it is harmless. -/
theorem allLinked_act_iff {a : Action} (ha : s.AllLinked) (hn : s.Named) (hp : s.Allows a) :
    (s.act a).AllLinked ↔ s.Harmless a := by
  cases a with
  | launch c o =>
    rw [AllLinked, act, launch, List.forall_mem_cons, Harmless, and_comm]
    apply and_congr
    · constructor
      · intro h fd hm l hl hs hu
        exact (linked_launch_iff hp (ha l hl hs) (hn l hl hs)).mp (h l hl hs) fd hm hu
      · intro h l hl hs
        exact (linked_launch_iff hp (ha l hl hs) (hn l hl hs)).mpr fun fd hm => h fd hm l hl hs
    · exact forall_congr' fun hs => (linked_start_iff hp hs).2
  | destroy n =>
    rw [act, Harmless]
    cases s.clients[n]? with
    | none => exact iff_of_true ha fun l hl => nomatch hl
    | some l' =>
      constructor
      · rintro h l ⟨⟩ fd hm l hl hs hu
        exact (linked_closeAll_iff (ha l (List.mem_of_mem_eraseIdx hl) hs)).mp (h l hl hs) fd hm hu
      · intro h l hl hs
        exact (linked_closeAll_iff (ha l (List.mem_of_mem_eraseIdx hl) hs)).mpr
          fun fd hm => h l' rfl fd hm l hl hs

end

/-- In every state that the actions lead through, all clients are linked. -/
def StaysLinked (s : System) : List Action → Prop
  | [] => s.AllLinked
  | a :: actions => s.AllLinked ∧ (s.act a).StaysLinked actions

def AllHarmless (s : System) : List Action → Prop
  | [] => True
  | a :: actions => s.Harmless a ∧ (s.act a).AllHarmless actions

def AllowsAll (s : System) : List Action → Prop
  | [] => True
  | a :: actions => s.Allows a ∧ (s.act a).AllowsAll actions

theorem staysLinked_iff_of_allLinked {s : System} {actions : List Action} (ha : s.AllLinked)
    (hn : s.Named) (hp : s.AllowsAll actions) : s.StaysLinked actions ↔ s.AllHarmless actions := by
  induction actions generalizing s with
  | nil => exact iff_of_true ha trivial
  | cons a actions ih =>
    obtain ⟨hpa, hp⟩ := hp
    have hstep := allLinked_act_iff ha hn hpa
    rw [StaysLinked, AllHarmless, ← hstep, and_iff_right ha]
    by_cases ha' : (s.act a).AllLinked
    · rw [and_iff_right ha']
      exact ih ha' (named_act hn hpa) hp
    · refine iff_of_false (fun h => ha' ?_) fun h => ha' h.1
      cases actions with
      | nil => exact h
      | cons b actions => exact h.1

/-- However clients are started and destroyed in a process, each of them stays linked to the process
that was forked for it exactly if every `start` and every destructor is harmless. -/
theorem staysLinked_iff (k : Kernel) (actions : List Action)
    (hp : AllowsAll { kernel := k } actions) :
    StaysLinked { kernel := k } actions ↔ AllHarmless { kernel := k } actions :=
  staysLinked_iff_of_allLinked (fun _ hl => nomatch hl) (fun _ hl => nomatch hl) hp

/-- A client for the descriptors 10 and 11. -/
def tenEleven : PipeClient := ⟨true, 10, 11, (0, 0), (0, 0)⟩

/-- A process with the descriptors below `n` in use. -/
def inUse (n : Int) : Kernel where
  table fd := if 0 ≤ fd ∧ fd < n then some .other else none
  pipes := 0

def launched (request response : Int × Int) : List Action :=
  [.launch tenEleven ⟨some request, some response, true, true⟩]

/-- With three descriptors in use all is well, and with nine one of the two goes to a pipe. -/
theorem staysLinked_tenEleven :
    StaysLinked { kernel := inUse 3 } (launched (3, 4) (5, 6)) ∧
      ¬StaysLinked { kernel := inUse 9 } (launched (9, 10) (11, 12)) := by
  have hthree : AllowsAll { kernel := inUse 3 } (launched (3, 4) (5, 6)) := by
    refine ⟨⟨?_, ?_⟩, trivial⟩
    · rintro _ ⟨⟩
      exact ⟨by decide, by decide, by decide⟩
    · rintro _ _ ⟨⟩ ⟨⟩
      exact ⟨by decide, by decide, by decide⟩
  have hnine : AllowsAll { kernel := inUse 9 } (launched (9, 10) (11, 12)) := by
    refine ⟨⟨?_, ?_⟩, trivial⟩
    · rintro _ ⟨⟩
      exact ⟨by decide, by decide, by decide⟩
    · rintro _ _ ⟨⟩ ⟨⟩
      exact ⟨by decide, by decide, by decide⟩
  constructor
  · apply (staysLinked_iff _ _ hthree).mpr
    refine ⟨⟨fun fd _ l hl => ?_, fun _ _ => ?_⟩, trivial⟩
    · exact (List.not_mem_nil hl).elim
    · unfold PipeClient.Apart
      decide
  · intro hs
    have ha : PipeClient.Apart ⟨true, 10, 11, (9, 10), (11, 12)⟩ :=
      ((staysLinked_iff _ _ hnine).mp hs).1.2 rfl rfl
    unfold PipeClient.Apart at ha
    exact absurd ha (by decide)

end System

end VpTesting.ClientDescriptors

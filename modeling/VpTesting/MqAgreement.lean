import VpTesting.InFlight

namespace VpTesting.MqAgreement

open VpTesting.Types VpTesting.HandlerCalls VpTesting.MqTestingCommunication
  VpTesting.MqTestingClient VpTesting.MqProcesses VpTesting.ReceiverStages
  VpTesting.ClientStages VpTesting.MqStages VpTesting.InFlight

variable {ι σ : Type}

/-- The bytes of a response that are sent behind the status. -/
def content (res : Response) : List UInt8 := (res.data.getD []).take res.dataLength.toNat

/-- What `send_request` returned with is what the receiver answered. -/
def Produced (res : Response) (sent : Sent) : Prop :=
  sent.res.responseStatus = res.responseStatus ∧
    (sent.result = true ↔ res.responseStatus ≠ Status.error.toByte ∧
      res.responseStatus ≠ Status.malformed.toByte) ∧
    (sent.result = true → sent.res.data.getD [] = content res ∧
      sent.res.dataLength.toNat = (content res).length)

/-- The requests a client completed are its requests in order, and the ones that its receiver
handled, and each was completed with what the receiver answered it with. -/
def Agreed (R : ReceiverData σ) (C : ClientData) : Prop :=
  ∀ (k : Nat) req sent, C.completed[k]? = some (req, sent) →
    C.sent[k]? = some req ∧ ∃ res, R.handled[k]? = some (req, res) ∧ Produced res sent

theorem produced_storeResponse (prior res : Response) (pid : Pid) :
    Produced res (storeResponse prior (responseMessage pid res)) := by
  have hlt : (content res).length < 2 ^ 32 := by
    rw [content, List.length_take]
    exact Nat.lt_of_le_of_lt (Nat.min_le_left _ _) res.dataLength.toNat_lt
  let p : Payload := ⟨content res, hlt⟩
  have hm : responseMessage pid res = pidToBytes pid ++ res.responseStatus :: p.bytes := rfl
  rw [hm, storeResponse, getD_message, receivedData_message, dataLength_message]
  by_cases he : res.responseStatus = Status.error.toByte
  · simp [Produced, he]
  · by_cases hmal : res.responseStatus = Status.malformed.toByte
    · simp [Produced, hmal]
    · simp [Produced, he, hmal, p]

def Matched (handled : List (Request × Response)) (completed : List (Request × Sent)) : Prop :=
  List.Forall₂ (fun x y => x.1 = y.1 ∧ Produced x.2 y.2) handled completed

theorem matched_getElem? {handled : List (Request × Response)}
    {completed : List (Request × Sent)} (hm : Matched handled completed) {k : Nat} {req : Request}
    {sent : Sent} (hk : completed[k]? = some (req, sent)) :
    ∃ res, handled[k]? = some (req, res) ∧ Produced res sent := by
  induction hm generalizing k with
  | nil => cases hk
  | @cons x y handled completed hxy hm ih =>
    cases k with
    | zero =>
      cases hk
      exact ⟨x.2, congrArg (fun r => some (r, x.2)) hxy.1, hxy.2⟩
    | succ k => exact ih hk

theorem getElem?_append_of_some {α : Type} {xs ys : List α} {k : Nat} {x : α}
    (hk : xs[k]? = some x) : (xs ++ ys)[k]? = some x := by
  obtain ⟨hlt, -⟩ := List.getElem?_eq_some_iff.mp hk
  rw [List.getElem?_append_left hlt, hk]

/-- How far a receiver and its client are, and which messages of theirs can be in flight:
`rq` on the request side, `rs` on the response side. -/
inductive Phase (p : Pid) (R : Receiver σ) (C : Client) (rq rs : Multiset Message) : Prop
  | unannounced (hR : R.stage = .announcing) (hC : started C.stage = some false)
    (hh : R.data.handled = []) (hs : C.data.sent = []) (hc : C.data.completed = [])
    (hrq : rq = 0) (hrs : rs = 0)
  | announced (hR : Listening R.stage) (hC : started C.stage = some false)
    (hh : R.data.handled = []) (hs : C.data.sent = []) (hc : C.data.completed = [])
    (hrq : rq = 0) (hrs : rs ≤ {readyMessage p})
  | quiet (hR : Listening R.stage) (hC : started C.stage = some true)
    (hm : Matched R.data.handled C.data.completed)
    (hs : C.data.sent = C.data.completed.map Prod.fst) (hrq : rq = 0) (hrs : rs = 0)
  | requested {req : FittingRequest} (hR : Listening R.stage)
    (hC : pending C.stage = some req.request) (hm : Matched R.data.handled C.data.completed)
    (hs : C.data.sent = C.data.completed.map Prod.fst ++ [req.request])
    (hrq : rq ≤ {requestMessage p req.request}) (hrs : rs = 0)
  | handling {req prior : Request} {res : Response} {handled : List (Request × Response)}
    (hR : R.stage = .responding prior res) (hC : pending C.stage = some req)
    (hh : R.data.handled = handled ++ [(req, res)]) (hm : Matched handled C.data.completed)
    (hs : C.data.sent = C.data.completed.map Prod.fst ++ [req]) (hrq : rq = 0) (hrs : rs = 0)
  | answered {req : Request} {res : Response} {handled : List (Request × Response)}
    (hR : Listening R.stage) (hC : pending C.stage = some req)
    (hh : R.data.handled = handled ++ [(req, res)]) (hm : Matched handled C.data.completed)
    (hs : C.data.sent = C.data.completed.map Prod.fst ++ [req]) (hrq : rq = 0)
    (hrs : rs ≤ {responseMessage p res})

section

variable {p : Pid} {R R' : Receiver σ} {C C' : Client} {rq rq' rs rs' : Multiset Message}

theorem eq_of_add_singleton_le {xs : Multiset Message} {a b : Message}
    (hle : xs + {a} ≤ {b}) : xs = 0 ∧ a = b := by
  have hcard := Multiset.card_le_card hle
  rw [Multiset.card_add, Multiset.card_singleton, Multiset.card_singleton] at hcard
  have ha := Multiset.mem_of_le hle (Multiset.mem_add.mpr (Or.inr (Multiset.mem_singleton_self a)))
  exact ⟨Multiset.card_eq_zero.mp (by omega), Multiset.mem_singleton.mp ha⟩

theorem add_singleton_ne_zero {xs : Multiset Message} {a : Message} : xs + {a} ≠ 0 := by
  intro h0
  have ha : a ∈ xs + {a} := Multiset.mem_add.mpr (Or.inr (Multiset.mem_singleton_self a))
  rw [h0] at ha
  exact Multiset.notMem_zero a ha

/-- Messages of a pair may get lost, but no others come. -/
theorem Phase.mono (hph : Phase p R C rq rs) (hrq' : rq' ≤ rq) (hrs' : rs' ≤ rs) :
    Phase p R C rq' rs' := by
  cases hph with
  | unannounced hR hC hh hs hc hrq hrs =>
    exact .unannounced hR hC hh hs hc (Multiset.le_zero.mp (hrq ▸ hrq'))
      (Multiset.le_zero.mp (hrs ▸ hrs'))
  | announced hR hC hh hs hc hrq hrs =>
    exact .announced hR hC hh hs hc (Multiset.le_zero.mp (hrq ▸ hrq')) (hrs'.trans hrs)
  | quiet hR hC hm hs hrq hrs =>
    exact .quiet hR hC hm hs (Multiset.le_zero.mp (hrq ▸ hrq')) (Multiset.le_zero.mp (hrs ▸ hrs'))
  | requested hR hC hm hs hrq hrs =>
    exact .requested hR hC hm hs (hrq'.trans hrq) (Multiset.le_zero.mp (hrs ▸ hrs'))
  | handling hR hC hh hm hs hrq hrs =>
    exact .handling hR hC hh hm hs (Multiset.le_zero.mp (hrq ▸ hrq'))
      (Multiset.le_zero.mp (hrs ▸ hrs'))
  | answered hR hC hh hm hs hrq hrs =>
    exact .answered hR hC hh hm hs (Multiset.le_zero.mp (hrq ▸ hrq')) (hrs'.trans hrs)

/-- In every phase the requests completed are the first of those handled. -/
theorem Phase.agreed (hph : Phase p R C rq rs) : Agreed R.data C.data := by
  intro k req sent hk
  have hfst : (C.data.completed.map Prod.fst)[k]? = some req := by
    rw [List.getElem?_map, hk]
    rfl
  cases hph with
  | unannounced _ _ _ _ hc | announced _ _ _ _ hc =>
    rw [hc] at hk
    cases hk
  | quiet _ _ hm hs =>
    rw [hs]
    exact ⟨hfst, matched_getElem? hm hk⟩
  | requested _ _ hm hs =>
    rw [hs]
    exact ⟨getElem?_append_of_some hfst, matched_getElem? hm hk⟩
  | handling _ _ hh hm hs | answered _ _ hh hm hs =>
    obtain ⟨res, hres, hp⟩ := matched_getElem? hm hk
    rw [hs, hh]
    exact ⟨getElem?_append_of_some hfst, res, getElem?_append_of_some hres, hp⟩

theorem not_listening_announcing (hR : Listening R.stage) (he : R.stage = .announcing) : False := by
  rw [he] at hR
  exact hR

theorem not_listening_responding {req : Request} {res : Response} (hR : Listening R.stage)
    (he : R.stage = .responding req res) : False := by
  rw [he] at hR
  exact hR

theorem phase_listens (hR : Listening R.stage) (hR' : Listening R'.stage)
    (hd : R'.data.handled = R.data.handled) (hph : Phase p R C rq rs) : Phase p R' C rq rs := by
  cases hph with
  | unannounced he => exact (not_listening_announcing hR he).elim
  | announced _ hC hh => exact .announced hR' hC (hd.trans hh) ‹_› ‹_› ‹_› ‹_›
  | quiet _ hC hm => exact .quiet hR' hC (hd ▸ hm) ‹_› ‹_› ‹_›
  | requested _ hC hm => exact .requested hR' hC (hd ▸ hm) ‹_› ‹_› ‹_›
  | handling he => exact (not_listening_responding hR he).elim
  | answered _ hC hh => exact .answered hR' hC (hd.trans hh) ‹_› ‹_› ‹_› ‹_›

theorem phase_announces (hR : R.stage = .announcing) (hR' : Listening R'.stage)
    (hd : R'.data.handled = R.data.handled) (hph : Phase p R C rq rs) :
    Phase p R' C rq (rs + {readyMessage p}) := by
  cases hph with
  | unannounced _ hC hh hs hc hrq hrs =>
    rw [hrs, zero_add]
    exact .announced hR' hC (hd.trans hh) hs hc hrq (le_refl _)
  | announced hL | quiet hL | requested hL | answered hL =>
    exact (not_listening_announcing hL hR).elim
  | handling he => cases hR.symm.trans he

/-- A receiver that accepts a request with its process id accepts the one its client sent. -/
theorem phase_accepts {buffer : Message} {res : Response} (hR : Listening R.stage)
    (hR' : R'.stage = .responding (receivedRequest buffer) res)
    (hd : R'.data.handled = R.data.handled ++ [(receivedRequest buffer, res)])
    (hph : Phase p R C (rq + {buffer}) rs) : Phase p R' C rq rs := by
  have hne : rq + {buffer} ≠ 0 := add_singleton_ne_zero
  cases hph with
  | unannounced he => exact (not_listening_announcing hR he).elim
  | announced _ _ _ _ _ hrq => exact absurd hrq hne
  | quiet _ _ _ _ hrq => exact absurd hrq hne
  | @requested req _ hC hm hs hrq hrs =>
    obtain ⟨h0, rfl⟩ := eq_of_add_singleton_le hrq
    rw [receivedRequest_requestMessage] at hd hR'
    exact .handling hR' hC hd hm hs h0 hrs
  | handling he => exact (not_listening_responding hR he).elim
  | answered _ _ _ _ _ hrq => exact absurd hrq hne

theorem phase_responds {req : Request} {res : Response} {put : Multiset Message}
    (hR : R.stage = .responding req res) (hR' : Listening R'.stage)
    (hd : R'.data.handled = R.data.handled) (hput : put ≤ {responseMessage p res})
    (hph : Phase p R C rq rs) : Phase p R' C rq (rs + put) := by
  cases hph with
  | unannounced he => cases hR.symm.trans he
  | announced hL | quiet hL | requested hL | answered hL =>
    exact (not_listening_responding hL hR).elim
  | handling he hC hh hm hs hrq hrs =>
    cases hR.symm.trans he
    rw [hrs, zero_add]
    exact .answered hR' hC (hd.trans hh) hm hs hrq hput

/-- What a receiver's step does to its own pair. -/
theorem phase_receiverEffect {out put : Multiset Message} (he : ReceiverEffect p R R' out put)
    (hz : ∀ buffer ∈ out, receivedPid buffer ≠ 0) (hph : Phase p R C (rq + tagged p out) rs) :
    Phase p R' C rq (rs + tagged p put) := by
  rw [tagged_eq_self he.receivedPid_put]
  cases he with
  | listens hR hR' hd =>
    rw [add_zero]
    exact phase_listens hR hR' hd (hph.mono (Multiset.le_add_right _ _) (le_refl _))
  | announces hR hR' hd =>
    rw [tagged_zero, add_zero] at hph
    exact phase_announces hR hR' hd hph
  | @accepts buffer res hR hR' ha hd =>
    have hp : receivedPid buffer = p := ha.resolve_left (hz buffer (Multiset.mem_singleton_self _))
    rw [tagged_singleton hp] at hph
    rw [add_zero]
    exact phase_accepts hR hR' hd hph
  | responds hR hR' hd hput =>
    rw [tagged_zero, add_zero] at hph
    exact phase_responds hR hR' hd hput hph

theorem started_ne_pending {req : Request} {b : Bool} (hs : started C.stage = some b)
    (hp : pending C.stage = some req) : False := by
  cases hC : C.stage with
  | checking | looking | checkHolding | submitting =>
    rw [hC] at hp
    cases hp
  | awaiting | awaitHolding =>
    rw [hC] at hs
    cases hs

theorem phase_checks {b : Bool} (hC : started C.stage = some b) (hC' : started C'.stage = some b)
    (hs' : C'.data.sent = C.data.sent) (hc' : C'.data.completed = C.data.completed)
    (hph : Phase p R C rq rs) : Phase p R C' rq rs := by
  cases hph with
  | unannounced hR he hh hs hc hrq hrs =>
    exact .unannounced hR (hC'.trans (hC.symm.trans he)) hh (hs'.trans hs) (hc'.trans hc) hrq hrs
  | announced hR he hh hs hc hrq hrs =>
    exact .announced hR (hC'.trans (hC.symm.trans he)) hh (hs'.trans hs) (hc'.trans hc) hrq hrs
  | quiet hR he hm hs hrq hrs =>
    exact .quiet hR (hC'.trans (hC.symm.trans he)) (hc' ▸ hm) (by rw [hs', hc', hs]) hrq hrs
  | requested _ hp => exact (started_ne_pending hC hp).elim
  | handling _ hp => exact (started_ne_pending hC hp).elim
  | answered _ hp => exact (started_ne_pending hC hp).elim

/-- Outside `send_request` the only message a client can take of its own is the announcement. -/
theorem phase_takes {b b' : Bool} {buffer : Message} (hC : started C.stage = some b)
    (hC' : started C'.stage = some (b || b')) (hs' : C'.data.sent = C.data.sent)
    (hc' : C'.data.completed = C.data.completed) (hph : Phase p R C rq (rs + {buffer})) :
    Phase p R C' rq rs := by
  cases hph with
  | unannounced _ _ _ _ _ _ hrs => exact absurd hrs add_singleton_ne_zero
  | announced hR he hh hs hc hrq hrs =>
    cases hC.symm.trans he
    obtain ⟨h0, -⟩ := eq_of_add_singleton_le hrs
    cases b' with
    | false =>
      exact .announced hR hC' hh (hs'.trans hs) (hc'.trans hc) hrq (h0 ▸ Multiset.zero_le _)
    | true =>
      refine .quiet hR hC' ?_ ?_ hrq h0
      · rw [hh, hc', hc]
        exact .nil
      · rw [hs', hs, hc', hc]
        rfl
  | quiet _ _ _ _ _ hrs => exact absurd hrs add_singleton_ne_zero
  | requested _ hp => exact (started_ne_pending hC hp).elim
  | handling _ hp => exact (started_ne_pending hC hp).elim
  | answered _ hp => exact (started_ne_pending hC hp).elim

theorem phase_submits {req : FittingRequest} (hC : started C.stage = some true)
    (hC' : pending C'.stage = some req.request) (hs' : C'.data.sent = C.data.sent ++ [req.request])
    (hc' : C'.data.completed = C.data.completed) (hph : Phase p R C rq rs) :
    Phase p R C' (rq + {requestMessage p req.request}) rs := by
  cases hph with
  | unannounced _ he | announced _ he => cases hC.symm.trans he
  | quiet hR he hm hs hrq hrs =>
    refine .requested hR hC' (hc' ▸ hm) (by rw [hs', hc', hs]) ?_ hrs
    rw [hrq, zero_add]
  | requested _ hp => exact (started_ne_pending hC hp).elim
  | handling _ hp => exact (started_ne_pending hC hp).elim
  | answered _ hp => exact (started_ne_pending hC hp).elim

theorem phase_waits {req : Request} (hC : pending C.stage = some req)
    (hC' : pending C'.stage = some req) (hs' : C'.data.sent = C.data.sent)
    (hc' : C'.data.completed = C.data.completed) (hph : Phase p R C rq rs) :
    Phase p R C' rq rs := by
  cases hph with
  | unannounced _ he | announced _ he | quiet _ he => exact (started_ne_pending he hC).elim
  | requested hR he hm hs hrq hrs =>
    exact .requested hR (hC'.trans (hC.symm.trans he)) (hc' ▸ hm) (by rw [hs', hc', hs]) hrq hrs
  | handling hR he hh hm hs hrq hrs =>
    exact .handling hR (hC'.trans (hC.symm.trans he)) hh (hc' ▸ hm) (by rw [hs', hc', hs]) hrq hrs
  | answered hR he hh hm hs hrq hrs =>
    exact .answered hR (hC'.trans (hC.symm.trans he)) hh (hc' ▸ hm) (by rw [hs', hc', hs]) hrq hrs

/-- The message that completes a request is the answer to that request. -/
theorem phase_completes {req : Request} {res : Response} {buffer : Message}
    (hC : pending C.stage = some req) (hC' : started C'.stage = some true)
    (hs' : C'.data.sent = C.data.sent)
    (hc' : C'.data.completed = C.data.completed ++ [(req, storeResponse res buffer)])
    (hph : Phase p R C rq (rs + {buffer})) : Phase p R C' rq rs := by
  cases hph with
  | unannounced _ he | announced _ he | quiet _ he => exact (started_ne_pending he hC).elim
  | requested _ _ _ _ _ hrs => exact absurd hrs add_singleton_ne_zero
  | handling _ _ _ _ _ _ hrs => exact absurd hrs add_singleton_ne_zero
  | @answered req' res' handled hR he hh hm hs hrq hrs =>
    cases hC.symm.trans he
    obtain ⟨h0, rfl⟩ := eq_of_add_singleton_le hrs
    refine .quiet hR hC' ?_ ?_ hrq h0
    · rw [hh, hc']
      exact List.rel_append hm (.cons ⟨rfl, produced_storeResponse res res' p⟩ .nil)
    · rw [hs', hs, hc', List.map_append]
      rfl

/-- What a client's step does to its own pair. -/
theorem phase_clientEffect {put out : Multiset Message} (he : ClientEffect p C C' put out)
    (hph : Phase p R C rq (rs + tagged p out)) : Phase p R C' (rq + tagged p put) rs := by
  rw [tagged_eq_self he.receivedPid_put]
  cases he with
  | checks hC hC' hs hc =>
    rw [add_zero]
    exact phase_checks hC hC' hs hc (hph.mono (le_refl _) (Multiset.le_add_right _ _))
  | @takes b b' buffer hC hC' hp hs hc =>
    rw [tagged_singleton hp] at hph
    rw [add_zero]
    exact phase_takes hC hC' hs hc hph
  | submits hC hC' hs hc =>
    rw [tagged_zero, add_zero] at hph
    exact phase_submits hC hC' hs hc hph
  | waits hC hC' hs hc =>
    rw [add_zero]
    exact phase_waits hC hC' hs hc (hph.mono (le_refl _) (Multiset.le_add_right _ _))
  | @completes req res buffer hC hC' hp hs hc =>
    rw [tagged_singleton hp] at hph
    rw [add_zero]
    exact phase_completes hC hC' hs hc hph

end

/-- Fresh pairs, whose clients have yet to take the announcement. -/
structure FreshPairs (pid : ι → Pid) (t : System ι ι σ) : Prop where
  fresh : Fresh pid pid t
  unstarted : ∀ i, ClientProcess.Chooses {} (MqClient.opened (pid i) false) (t.clients i)

theorem starting_of_freshPairs {pid : ι → Pid} {t : System ι ι σ} (ht : FreshPairs pid t) :
    ∃ (v : ι → σ) (memory : ι → Nat → UInt8),
      t = (starting v fun i => .checking false (memory i)).toSystem pid pid := by
  have hc (i : ι) : ∃ memory, t.clients i =
      ⟨{}, ClientProcess.checking (MqClient.opened (pid i) false) memory⟩ := by
    generalize hC : t.clients i = P
    have hP := ht.unstarted i
    rw [hC] at hP
    cases hP with
    | check memory => exact ⟨memory, rfl⟩
    | request hs => cases hs
  choose v hv using ht.fresh.receivers
  choose memory hmemory using hc
  refine ⟨v, memory, ?_⟩
  obtain ⟨queues, receivers, clients⟩ := t
  rw [Staged.toSystem]
  congr 1
  · funext q
    exact ht.fresh.queues q
  · funext i
    exact hv i
  · funext i
    exact hmemory i

section

variable [Fintype ι] {pid : ι → Pid}

structure Invariant (pid : ι → Pid) (s : Staged ι ι σ) : Prop where
  framed : ∀ buffer ∈ s.queues .responses, 5 ≤ buffer.length
  addressed : tagged 0 (requests s) = 0
  phase : ∀ i, Phase (pid i) (s.receivers i) (s.clients i) (tagged (pid i) (requests s))
    (tagged (pid i) (responses s))

variable [DecidableEq ι] {h : ι → Handlers σ} {s s' : Staged ι ι σ}

theorem invariant_of_receiverMove {i : ι} {R : Receiver σ} {q : Queues}
    (hinj : Function.Injective pid)
    (hm : ReceiverMove (h i) False (pid i) (s.receivers i) s.queues R q) (hs : Invariant pid s) :
    Invariant pid { s with queues := q, receivers := Function.update s.receivers i R } := by
  obtain ⟨out, put, he, hout, hput⟩ := receiver_flow hm
  have hz : ∀ buffer ∈ out, receivedPid buffer ≠ 0 := by
    intro buffer hb h0
    have hmem : buffer ∈ tagged 0 (requests s) :=
      Multiset.mem_filter.mpr ⟨hout ▸ Multiset.mem_add.mpr (Or.inr hb), h0⟩
    rw [hs.addressed] at hmem
    exact Multiset.notMem_zero buffer hmem
  have hle (p : Pid) : tagged p (requests { s with
      queues := q, receivers := Function.update s.receivers i R }) ≤ tagged p (requests s) := by
    rw [← hout, tagged_add]
    exact Multiset.le_add_right _ _
  constructor
  · exact ResponseRouting.framed_receiverMove hm hs.framed
  · exact Multiset.le_zero.mp (hs.addressed ▸ hle 0)
  · intro j
    have hj := hs.phase j
    by_cases hji : j = i
    · subst hji
      rw [← hout, tagged_add] at hj
      rw [hput, tagged_add]
      simpa only [Function.update_self] using phase_receiverEffect he hz hj
    · have hne : pid i ≠ pid j := fun hp => hji (hinj hp).symm
      rw [hput, tagged_add, tagged_eq_zero hne he.receivedPid_put, add_zero]
      simpa only [Function.update_of_ne hji] using hj.mono (hle (pid j)) (le_refl _)

theorem invariant_of_clientMove {i : ι} {C : Client} {q : Queues}
    (hinj : Function.Injective pid) (hpos : ∀ i, pid i ≠ 0)
    (hm : ClientMove False (pid i) (s.clients i) s.queues C q) (hs : Invariant pid s) :
    Invariant pid { s with queues := q, clients := Function.update s.clients i C } := by
  obtain ⟨put, out, he, hput, hout⟩ := client_flow hm hs.framed
  constructor
  · exact ResponseRouting.framed_clientMove hm hs.framed
  · rw [hput, tagged_add, hs.addressed, tagged_eq_zero (hpos i) he.receivedPid_put]
    rfl
  · intro j
    have hj := hs.phase j
    by_cases hji : j = i
    · subst hji
      rw [← hout, tagged_add] at hj
      rw [hput, tagged_add]
      simpa only [Function.update_self] using phase_clientEffect he hj
    · have hne : pid i ≠ pid j := fun hp => hji (hinj hp).symm
      have hle : tagged (pid j) (responses { s with
          queues := q, clients := Function.update s.clients i C }) ≤
            tagged (pid j) (responses s) := by
        rw [← hout, tagged_add]
        exact Multiset.le_add_right _ _
      rw [hput, tagged_add, tagged_eq_zero hne he.receivedPid_put, add_zero]
      simpa only [Function.update_of_ne hji] using hj.mono (le_refl _) hle

theorem invariant_of_move (hinj : Function.Injective pid) (hpos : ∀ i, pid i ≠ 0)
    (hm : Move h False pid pid s s') (hs : Invariant pid s) : Invariant pid s' := by
  cases hm with
  | receiver i hm => exact invariant_of_receiverMove hinj hm hs
  | client i hm => exact invariant_of_clientMove hinj hpos hm hs

omit [DecidableEq ι] in
theorem invariant_starting (v : ι → σ) (memory : ι → Nat → UInt8) :
    Invariant pid (starting v fun i => .checking false (memory i)) := by
  have hrq : requests (starting v fun i : ι => .checking false (memory i)) = 0 := by
    simp [requests, starting, ReceiverStage.held]
  have hrs : responses (starting v fun i : ι => .checking false (memory i)) = 0 := by
    simp [responses, starting, ClientStage.held]
  constructor
  · exact List.forall_mem_nil _
  · rw [hrq, tagged_zero]
  · intro i
    rw [hrq, hrs, tagged_zero]
    exact .unannounced rfl rfl rfl rfl rfl rfl rfl

/-- Whatever the order of the steps, each request is completed with the answer to it. -/
theorem agreement (h : ι → Handlers σ) (hinj : Function.Injective pid) (hpos : ∀ i, pid i ≠ 0)
    {t t' : System ι ι σ} (ht : FreshPairs pid t) (hr : Reachable h False t t') (i : ι) :
    Agreed (t'.receivers i).data (t'.clients i).data := by
  obtain ⟨v, memory, rfl⟩ := starting_of_freshPairs ht
  obtain ⟨s, rfl, hs⟩ := reachable_invariant hr (invariant_starting v memory)
    fun _ _ => invariant_of_move hinj hpos
  exact (hs.phase i).agreed

end

/-- The first of two clients gets the answer of its receiver. -/
theorem agreement_pairs :
    ∃ t : System (Fin 2) (Fin 2) Unit, (t.clients 0).data.completed ≠ [] ∧
      Agreed (t.receivers 0).data (t.clients 0).data := by
  obtain ⟨s, hs, -, -, hC, hq⟩ := exists_killAnswered
  have hC' : s.clients 0 = ⟨(s.clients 0).data, .awaiting killRequest.request {}⟩ := hC ▸ rfl
  have hs' := hs.tail (move_client hC' (.awaitTake hq (by decide) (by decide) (.check fun _ => 0)))
  have hpairs : FreshPairs pids (pairs.toSystem pids pids) := ⟨fresh_pairs, fun _ => .check _⟩
  refine ⟨_, ?_, agreement (fun _ => silent Unit) (by decide) (by decide) hpairs
    (reachable_of_moves hs') 0⟩
  simp [Staged.toSystem, Client.toProcess]

end VpTesting.MqAgreement

import VpTesting.DeliveredRequests

namespace VpTesting.HandlerOutput

open VpTesting.ByteMemory VpTesting.Types VpTesting.TestingCommunication VpTesting.HandlerCalls
  VpTesting.HandleRequest VpTesting.DeliveredRequests

variable {σ : Type}

/-- The type byte followed by as many additional data as announced, if there are as many. -/
def eventData (e : Event) : Option Payload :=
  if h : e.additionalDataLength.toNat ≤ (e.additionData.getD []).length ∧
      e.additionalDataLength.toNat < 2 ^ 32 - 1 then
    some ⟨e.event :: (e.additionData.getD []).take e.additionalDataLength.toNat, by
      rw [List.length_cons, List.length_take_of_le h.1]
      omega⟩
  else none

def valueData (value : UInt64) : Payload := ⟨be64 value, by simp⟩

/-- The length of the coverage string followed by the string. -/
def coverageData (coverage : List UInt8) : Option Payload :=
  if h : coverage.length < 2 ^ 32 - 4 then
    some ⟨be32 (UInt32.ofNat coverage.length) ++ coverage, by simp; omega⟩
  else none

/-- The data that report what a handler left in its parameter, where there are any. -/
def encoding : (c : HandlerCall) → c.Out → Option Payload
  | .handleContinue _, lastEvent => eventData lastEvent
  | .handleGetCodeCoverage _, coverage => coverage.bind coverageData
  | .handleGetReturnCode _, code => some (valueData code)
  | .handleGetCpuPc _, pc => some (valueData pc)
  | _, _ => none

/-- The commands answered with data. -/
inductive Query
  | «continue»
  | getCodeCoverage
  | getReturnCode
  | getCpuPc

namespace Query

def command : Query → Command
  | «continue» => .«continue»
  | getCodeCoverage => .getCodeCoverage
  | getReturnCode => .getReturnCode
  | getCpuPc => .getCpuPc

/-- The handler call with its parameter as it is declared in the branch. -/
def call (g : Indeterminate) : Query → HandlerCall
  | «continue» => .handleContinue { event := g.eventType }
  | getCodeCoverage => .handleGetCodeCoverage none
  | getReturnCode => .handleGetReturnCode g.exitCode
  | getCpuPc => .handleGetCpuPc g.cpuPc

def request (q : Query) : Request := { requestCommand := q.command.toByte }

end Query

def answer (h : Handlers σ) (g : Indeterminate) (v : σ) (q : Query) : Response :=
  ((handleRequest h g q.request).run { state := v }).2.res

/-- There is a response with the handler's status, and the encoding of its output is the data. -/
def Answers (h : Handlers σ) (g : Indeterminate) (v : σ) (q : Query) : Prop :=
  ¬Crashes h g v q.request ∧
    (answer h g v q).responseStatus = (h (q.call g) v).status.toByte ∧
      ∀ p, encoding (q.call g) (h (q.call g) v).out = some p →
        (answer h g v q).data = some p.bytes ∧ (answer h g v q).dataLength = p.length

theorem store_event (e : UInt8) (data : List UInt8) :
    store ((List.replicate (data.length + 1) 0).set 0 e) 1 data = e :: data := by
  have hs := store_append [e] (List.replicate data.length 0) [] data (by simp)
  simpa [List.replicate_succ] using hs

theorem store_value (value : UInt64) :
    int64ToBytes value.toInt64 (List.replicate 8 0) 0 = be64 value := by
  have hs := int64ToBytes_append value.toInt64 [] (List.replicate 8 0) [] (by simp)
  simpa using hs

/-- The data of a CONTINUE response, as the branch builds them from the event. -/
def continueData (e : Event) : List UInt8 :=
  store ((List.replicate (e.additionalDataLength + 1).toNat 0).set 0 e.event) 1
    ((e.additionData.getD []).take e.additionalDataLength.toNat)

theorem answer_continue (h : Handlers σ) (g : Indeterminate) (v : σ) (e : Event)
    (ho : (h (.handleContinue { event := g.eventType }) v).out = e) :
    answer h g v .«continue» =
      { responseStatus := (h (.handleContinue { event := g.eventType }) v).status.toByte
        data := some (continueData e), dataLength := e.additionalDataLength + 1 } := by
  simp [answer, handleRequest, Query.request, Query.command, ho, continueData]

theorem eventData_spec {e : Event} {p : Payload} (hp : eventData e = some p) :
    p.bytes = e.event :: (e.additionData.getD []).take e.additionalDataLength.toNat ∧
      (e.additionalDataLength + 1).toNat =
        ((e.additionData.getD []).take e.additionalDataLength.toNat).length + 1 := by
  unfold eventData at hp
  split at hp
  · next h =>
    obtain rfl := Option.some.inj hp
    refine ⟨rfl, ?_⟩
    rw [UInt32.toNat_add, UInt32.toNat_one, List.length_take_of_le h.1]
    exact Nat.mod_eq_of_lt (by omega)
  · cases hp

theorem continueData_eq {e : Event} {p : Payload} (hp : eventData e = some p) :
    continueData e = p.bytes := by
  obtain ⟨hbytes, hsucc⟩ := eventData_spec hp
  rw [continueData, hsucc, store_event, hbytes]

theorem not_crashes_iff (h : Handlers σ) (g : Indeterminate) (v : σ) (q : Query) :
    ¬Crashes h g v q.request ↔
      (q = .«continue» → Copyable (h (.handleContinue { event := g.eventType }) v).out) := by
  have hq : q.request = (Delivery.whole q.command.toByte .empty).request := rfl
  rw [hq, crashes_iff, Delivery.Fatal, Command.ofByte_toByte]
  cases q with
  | «continue» => simp [Query.command, Payload.empty]
  | getCodeCoverage | getReturnCode | getCpuPc => simp [Query.command]

/-- The event of a CONTINUE is answered whenever it can be copied. -/
theorem answers_continue_iff (h : Handlers σ) (g : Indeterminate) (v : σ) :
    Answers h g v .«continue» ↔
      Copyable (h (.handleContinue { event := g.eventType }) v).out := by
  obtain ⟨e, he⟩ : ∃ e : Event, (h (.handleContinue { event := g.eventType }) v).out = e :=
    ⟨_, rfl⟩
  rw [Answers, not_crashes_iff, answer_continue h g v e he]
  refine (and_iff_left ⟨rfl, fun p hp => ?_⟩).trans (forall_prop_of_true rfl)
  have hd : eventData e = some p := by
    rw [← he]
    exact hp
  obtain ⟨hbytes, hsucc⟩ := eventData_spec hd
  refine ⟨congrArg some (continueData_eq hd), ?_⟩
  apply UInt32.toNat.inj
  rw [hsucc, Payload.toNat_length, hbytes, List.length_cons]

theorem answer_getReturnCode (h : Handlers σ) (g : Indeterminate) (v : σ) (code : UInt64)
    (ho : (h (.handleGetReturnCode g.exitCode) v).out = code) :
    answer h g v .getReturnCode =
      { responseStatus := (h (.handleGetReturnCode g.exitCode) v).status.toByte
        data := some (be64 code), dataLength := 8 } := by
  rw [← store_value code]
  simp [answer, handleRequest, Query.request, Query.command, ho]

theorem answer_getCpuPc (h : Handlers σ) (g : Indeterminate) (v : σ) (pc : UInt64)
    (ho : (h (.handleGetCpuPc g.cpuPc) v).out = pc) :
    answer h g v .getCpuPc =
      { responseStatus := (h (.handleGetCpuPc g.cpuPc) v).status.toByte
        data := some (be64 pc), dataLength := 8 } := by
  rw [← store_value pc]
  simp [answer, handleRequest, Query.request, Query.command, ho]

theorem answers_getReturnCode (h : Handlers σ) (g : Indeterminate) (v : σ) :
    Answers h g v .getReturnCode := by
  rw [Answers, not_crashes_iff, answer_getReturnCode h g v _ rfl]
  refine ⟨nofun, rfl, fun p hp => ?_⟩
  obtain rfl := Option.some.inj hp
  exact ⟨rfl, rfl⟩

theorem answers_getCpuPc (h : Handlers σ) (g : Indeterminate) (v : σ) :
    Answers h g v .getCpuPc := by
  rw [Answers, not_crashes_iff, answer_getCpuPc h g v _ rfl]
  refine ⟨nofun, rfl, fun p hp => ?_⟩
  obtain rfl := Option.some.inj hp
  exact ⟨rfl, rfl⟩

theorem answer_getCodeCoverage (h : Handlers σ) (g : Indeterminate) (v : σ) :
    answer h g v .getCodeCoverage =
      { responseStatus := Status.error.toByte, data := none, dataLength := 0 } := by
  simp [answer, handleRequest, Query.request, Query.command]

/-- The branch looks at its own pointer, which the handler cannot change. So it answers with
STATUS_ERROR and no data, whatever the handler did. -/
theorem answers_getCodeCoverage_iff (h : Handlers σ) (g : Indeterminate) (v : σ) :
    Answers h g v .getCodeCoverage ↔
      (h (.handleGetCodeCoverage none) v).status = .error ∧
        encoding (.handleGetCodeCoverage none) (h (.handleGetCodeCoverage none) v).out = none := by
  rw [Answers, not_crashes_iff, answer_getCodeCoverage]
  refine (and_iff_right nofun).trans (and_congr ?_ ?_)
  · exact ⟨fun hs => (Status.toByte_injective hs).symm, fun hs => congrArg Status.toByte hs.symm⟩
  · constructor
    · intro hp
      refine Option.eq_none_iff_forall_not_mem.mpr fun p he => ?_
      cases (hp p he).1
    · intro hn p hp
      cases hn.symm.trans hp

/-- Every data-returning command answers with its handler's status and output, but for a CONTINUE
whose event cannot be copied, and for GET_CODE_COVERAGE, which only does when its handler fails
and leaves nothing to return. -/
theorem answers_iff (h : Handlers σ) (g : Indeterminate) (v : σ) (q : Query) :
    Answers h g v q ↔
      (q = .«continue» → Copyable (h (.handleContinue { event := g.eventType }) v).out) ∧
        (q = .getCodeCoverage → (h (.handleGetCodeCoverage none) v).status = .error ∧
          encoding (.handleGetCodeCoverage none)
            (h (.handleGetCodeCoverage none) v).out = none) := by
  cases q with
  | «continue» => simpa using answers_continue_iff h g v
  | getCodeCoverage => simpa using answers_getCodeCoverage_iff h g v
  | getReturnCode => simpa using answers_getReturnCode h g v
  | getCpuPc => simpa using answers_getCpuPc h g v

/-- A handler that returns one byte of coverage. -/
def coverageHandlers : Handlers Unit
  | .handleGetCodeCoverage _, v => ⟨.ok, some [1], v⟩
  | c, v => silent Unit c v

theorem coverage_not_answered :
    ¬Answers coverageHandlers Indeterminate.zero () .getCodeCoverage := by
  rw [answers_getCodeCoverage_iff]
  exact fun ha => nomatch ha.1

end VpTesting.HandlerOutput

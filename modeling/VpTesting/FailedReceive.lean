import VpTesting.MqReplies
import VpTesting.PipeReplies

namespace VpTesting.FailedReceive

open VpTesting.Types VpTesting.Pipe VpTesting.MqTestingCommunication VpTesting.MqProcesses
  VpTesting.ReplyOrder VpTesting.MqReplies VpTesting.PipeReplies

/-- A failed receive does not shift later answers: over both transports no call takes the response
to an earlier call that returned false if no call takes a response after one that left some of
its own behind. The converse needs that the client notices when it leaves something behind. -/
theorem kept_iff_orderly (pid : Pid) (mqCalls : List MqCall) (pipeCalls : List PipeCall) :
    (∀ rs, (mqTransport pid).session mqCalls {} = some rs →
      (Log.Kept {} rs ↔ (mqTransport pid).Orderly mqCalls)) ∧
    ∀ rs, pipeTransport.session pipeCalls {} = some rs →
      (pipeTransport.Orderly pipeCalls → Log.Kept {} rs) ∧
      ((∀ a ∈ pipeCalls, a.Regular) → Log.Kept {} rs → pipeTransport.Orderly pipeCalls) := by
  constructor
  · intro rs hs
    have hi : (mqTransport pid).Idle {} := ⟨rfl, rfl, List.forall_mem_nil _⟩
    constructor
    · exact Transport.orderly_of_kept hi rfl hs fun _ _ => trivial
    · exact Transport.kept_of_orderly hi rfl hs
  · intro rs hs
    have hi : pipeTransport.Idle {} := rfl
    constructor
    · exact Transport.kept_of_orderly hi rfl hs
    · exact Transport.orderly_of_kept hi rfl hs

/-- ENABLE_CODE_COVERAGE over the queues, answered at once. -/
def mqCoverage (status : Status) (fails : Bool) : MqCall where
  req := .withoutData .enableCodeCoverage
  res := {}
  memory _ := 0
  status := status
  data := .empty
  served := 1
  fails := fails
  consume _ := []

def pipeCoverage (status : Status) (header : ReadOutcome) : PipeCall where
  req := { requestCommand := Command.toByte .enableCodeCoverage }
  res := {}
  status := status
  data := .empty
  outcomes := Stream'.const header
  consume _ := []

/-- A receive fails, and no call comes after it. -/
theorem kept_of_last_failed :
    (∃ rs, (mqTransport 1).session [mqCoverage .ok false, mqCoverage .ok true] {} = some rs ∧
      Log.Kept {} rs) ∧
    ∃ rs, pipeTransport.session [pipeCoverage .ok (.data 4), pipeCoverage .ok .error] {} = some rs ∧
      Log.Kept {} rs := by
  have hmq : (mqTransport 1).Orderly [mqCoverage .ok false, mqCoverage .ok true] := by
    refine List.pairwise_pair.mpr ?_
    rintro ⟨⟨⟩, -⟩
  have hpipe : pipeTransport.Orderly [pipeCoverage .ok (.data 4), pipeCoverage .ok .error] := by
    refine List.pairwise_pair.mpr fun _ => ?_
    rintro ⟨more, ⟨⟩, -⟩
  obtain ⟨hkept, hkept'⟩ := kept_iff_orderly 1 _ _
  exact ⟨⟨_, rfl, (hkept _ rfl).mpr hmq⟩, ⟨_, rfl, (hkept' _ rfl).1 hpipe⟩⟩

/-- The first receive fails. The second call returns true with the response to the first one,
although its own request was answered with STATUS_ERROR. -/
theorem exists_not_kept :
    (∃ rs, (mqTransport 1).session [mqCoverage .ok true, mqCoverage .error false] {} = some rs ∧
      ¬Log.Kept {} rs) ∧
    ∃ rs, pipeTransport.session
        [pipeCoverage .ok .error, pipeCoverage .error (.data 4)] {} = some rs ∧
      ¬Log.Kept {} rs := by
  refine ⟨⟨[⟨1, 0, false, false⟩, ⟨1, 1, true, true⟩], rfl, ?_⟩,
    ⟨[⟨5, 0, false, false⟩, ⟨5, 5, true, true⟩], rfl, ?_⟩⟩
  · rintro ⟨-, hn, -⟩
    exact hn ⟨rfl, 0, rfl, rfl⟩
  · rintro ⟨-, hn, -⟩
    exact hn ⟨rfl, 0, rfl, rfl⟩

end VpTesting.FailedReceive

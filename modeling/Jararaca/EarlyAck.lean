import Jararaca.WorkerSettlement

/-!
# After an early acknowledgement

A handler may acknowledge its message and go on. What the worker does on behalf of
that delivery afterwards is read off the log: nothing as long as the handler ends
quietly, since the success path and the branch of unparseable payloads look at the
disposition. The branch of other exceptions does not, and goes on to a retry.
-/
namespace EarlyAck

open Programs Messages UnitOfWork Interceptors Worker WorkerRules WorkerOutcomes WorkerSettlement

/-- An execution in which a call of the controller's `ack` succeeded. -/
structure Acked (spec : HandlerSpec) (interceptors : List Interceptor) (msg : Delivery)
    (x : Execution) where
  n : Int
  before : List HandlerCall
  ack : HandlerCall
  after : List HandlerCall
  counted : getRetryCount msg.headers = some n
  enters : AllEnter (workContexts interceptors msg x)
  split : x.calls = before ++ ack :: after
  isAck : ack.call = .ack
  succeeds : (controllerCall spec msg (workHeaders interceptors msg x) ack
    (controllerCalls spec msg (workHeaders interceptors msg x) before
      (entered interceptors msg x)).2).1 = .ok ()

/-- The ending hands an acknowledged delivery to the failure handling of the worker,
which gets as far as the broker or the broker backend. -/
def FailsAfter (spec : HandlerSpec) (n : Int) (x : Execution) : Prop :=
  match x.ending with
  | .returned => False
  | .raised (.payloadValidationError _) => False
  | .raised e => e.isException = true ∧ FailureReaches spec n x e

theorem controllerCalls_append (spec : HandlerSpec) (msg : Delivery) (implicit : Headers)
    (first second : List HandlerCall) (s : Exec) :
    controllerCalls spec msg implicit (first ++ second) s =
      controllerCalls spec msg implicit second (controllerCalls spec msg implicit first s).2 := by
  induction first generalizing s with
  | nil => rfl
  | cons c cs ih =>
    rw [List.cons_append, controllerCalls_run, controllerCalls_run]
    exact ih _

/-- A call of `ack` that returns has settled the delivery and said so. -/
theorem ack_succeeded {spec : HandlerSpec} {msg : Delivery} {implicit : Headers} {c : HandlerCall}
    {s : Exec} (hc : c.call = .ack) (h : (controllerCall spec msg implicit c s).1 = .ok ()) :
    (controllerCall spec msg implicit c s).2.processed = true ∧
      (controllerCall spec msg implicit c s).2.disposition = some .ack := by
  unfold controllerCall at h ⊢
  simp only [hc] at h ⊢
  by_cases hp : s.processed = true
  · rw [Prog.bind_error (settle_refused hp _ _)] at h
    cases h
  · have hp' : s.processed = false := by simpa using hp
    cases hr : c.env.broker with
    | ok u =>
      rw [Prog.bind_ok (settle_applied hp' _)]
      exact ⟨rfl, rfl⟩
    | error e =>
      rw [hr, Prog.bind_error (settle_failed hp' _ _)] at h
      cases h

/-- The ending of a handler whose delivery is settled and disposed of. -/
theorem handlerWithLadder_disposed {spec : HandlerSpec} {msg : Delivery} {implicit : Headers}
    {n : Int} {x : Execution} {s t : Exec} {d : Disposition}
    (hd : t.disposition = some d) (ht : controllerCalls spec msg implicit x.calls s = (.ok (), t)) :
    (FailsAfter spec n x ∧ Touched t (handlerWithLadder spec msg implicit n x s).2) ∨
      (¬FailsAfter spec n x ∧ (handlerWithLadder spec msg implicit n x s).2 = t) := by
  unfold FailsAfter
  cases hx : x.ending with
  | returned =>
    have hack : acknowledge x t = (.ok (), t) := by simp [acknowledge_run, hd]
    rw [handlerWithLadder_returned hx ht, Prog.tryExcept_ok hack]
    exact .inr ⟨id, rfl⟩
  | raised e =>
    rw [handlerWithLadder_raised hx ht]
    have hexc : e.isException = true → (∀ text, e ≠ .payloadValidationError text) →
        ((e.isException = true ∧ FailureReaches spec n x e) ∧
          Touched t (exceptLadder spec msg implicit n x e t).2) ∨
        (¬(e.isException = true ∧ FailureReaches spec n x e) ∧
          (exceptLadder spec msg implicit n x e t).2 = t) := by
      intro he hv
      rw [exceptLadder_exception spec msg implicit n x he hv]
      obtain ⟨hf, u, hrun, hu⟩ | ⟨hf, hst, -⟩ := handleException_cases spec msg implicit n x t e
      · rw [hrun]
        exact .inl ⟨⟨he, hf⟩, hu.touched⟩
      · exact .inr ⟨fun h => hf h.2, hst⟩
    cases e with
    | payloadValidationError text =>
      refine .inr ⟨id, ?_⟩
      rw [exceptLadder]
      cases hrec : x.recorded with
      | error e' => rw [rejectUnparseable_unrecorded hrec]
      | ok u => simp [rejectUnparseable_run hrec, hd]
    | messageDisposed d => exact .inr ⟨by simp [PyExc.isException], rfl⟩
    | cancelledError => exact .inr ⟨by simp [PyExc.isException], rfl⟩
    | baseException kind => exact .inr ⟨by simp [PyExc.isException], rfl⟩
    | error kind text => exact hexc rfl (by simp)
    | messageProcessError => exact hexc rfl (by simp)
    | timeoutError => exact hexc rfl (by simp)

namespace Acked

variable {spec : HandlerSpec} {interceptors : List Interceptor} {msg : Delivery} {x : Execution}
  (a : Acked spec interceptors msg x)
include a

/-- The state in which the call of `ack` returned. -/
def state : Exec :=
  (controllerCall spec msg (workHeaders interceptors msg x) a.ack
    (controllerCalls spec msg (workHeaders interceptors msg x) a.before
      (entered interceptors msg x)).2).2

theorem calls_run : controllerCalls spec msg (workHeaders interceptors msg x) x.calls
      (entered interceptors msg x) =
    controllerCalls spec msg (workHeaders interceptors msg x) a.after a.state := by
  rw [a.split, controllerCalls_append, controllerCalls_run]
  rfl

theorem state_settled : a.state.processed = true ∧ a.state.disposition = some .ack :=
  ack_succeeded a.isAck a.succeeds

/-- The rest of the handler, up to the end of its unit of work. -/
theorem body_cases :
    (((∃ c ∈ a.after, Reaches spec a.n c) ∨ FailsAfter spec a.n x) ∧
      Touched a.state (transactionBody spec msg (workHeaders interceptors msg x) a.n x
        (entered interceptors msg x)).2) ∨
    (¬((∃ c ∈ a.after, Reaches spec a.n c) ∨ FailsAfter spec a.n x) ∧
      (transactionBody spec msg (workHeaders interceptors msg x) a.n x
        (entered interceptors msg x)).2 = a.state) := by
  rw [transactionBody_state]
  have hrun := a.calls_run
  obtain ⟨hreach, htouch⟩ | ⟨hnone, ht⟩ :=
    controllerCalls_cases spec (workHeaders interceptors msg x) a.counted a.after a.state
  · have hext := handlerWithLadder_extends spec msg (workHeaders interceptors msg x) a.n x
      (entered interceptors msg x) extendsLog_respected
    rw [hrun] at hext
    exact .inl ⟨.inl hreach, htouch.extended hext⟩
  · rw [controllerCalls_ok spec msg _ a.after, ht] at hrun
    have hnone' : ¬∃ c ∈ a.after, Reaches spec a.n c := by
      rintro ⟨c, hc, hr⟩
      exact hnone c hc hr
    obtain ⟨hf, htouch⟩ | ⟨hf, hst⟩ := handlerWithLadder_disposed (n := a.n) a.state_settled.2 hrun
    · exact .inl ⟨.inr hf, htouch⟩
    · refine .inr ⟨?_, hst⟩
      rintro (h | h)
      · exact hnone' h
      · exact hf h

end Acked

/-- What does not touch the delivery adds no copy of it. -/
theorem untouched_copies {s t : Exec} (h : Untouched s t) :
    copies t.log = copies s.log := by
  obtain ⟨rest, hrest, hall⟩ := h
  have hnone : copies rest = [] := by
    apply List.filterMap_eq_nil_iff.mpr
    intro e he
    cases e with
    | enqueued copy => exact absurd (hall _ he) (by simp [Event.touches])
    | attempt op => rfl
    | settled op => rfl
    | uow event => rfl
  rw [hrest, copies, List.filterMap_append]
  change copies s.log ++ copies rest = _
  rw [hnone, List.append_nil]

/-- After a successful `ack` nothing is asked of the broker or of the broker backend for
the delivery exactly where no later controller call gets through and no exception
reaches the failure handling. -/
theorem untouched_after_ack_iff {spec : HandlerSpec} {interceptors : List Interceptor}
    {msg : Delivery} {x : Execution} (a : Acked spec interceptors msg x) :
    Untouched a.state (final spec interceptors msg x) ↔
      (∀ c ∈ a.after, ¬Reaches spec a.n c) ∧ ¬FailsAfter spec a.n x := by
  obtain ⟨r, t, hbody⟩ : ∃ r t, transactionBody spec msg (workHeaders interceptors msg x) a.n x
      (entered interceptors msg x) = (r, t) := ⟨_, _, rfl⟩
  have hcases := a.body_cases
  rw [hbody] at hcases
  rw [final, handleMessage_run a.counted a.enters hbody]
  rcases hcases with ⟨hcond, htouch⟩ | ⟨hcond, hst⟩
  · have hmore := htouch.extended (extendsLog_record
      (exitTrace (exitOrder (workContexts interceptors msg x)) (raisedBy r)) t)
    refine iff_of_false hmore.not_untouched ?_
    rintro ⟨hnone, hf⟩
    rcases hcond with ⟨c, hc, hr⟩ | h
    · exact hnone c hc hr
    · exact hf h
  · refine iff_of_true ?_ ⟨fun c hc hr => hcond (.inl ⟨c, hc, hr⟩), fun h => hcond (.inr h)⟩
    rw [show t = a.state from hst]
    refine ⟨_, rfl, ?_⟩
    intro e he
    obtain ⟨u, -, rfl⟩ := List.mem_map.mp he
    rfl

/-- A handler that is retried on exceptions. -/
def retriedSpec : HandlerSpec where
  topic := "task.topic"
  queueName := "task.topic.Task.run"
  timeout := none
  hasExceptionHandler := false
  nackOnException := true
  nackDelayOnException := 5
  retryConfig := none
  consumerRetryPolicy := {}

def ackThenFail : Execution where
  calls := [{ call := .ack }]
  ending := .raised (.error "ValueError" "late failure")

def ackThenFailAcked : Acked retriedSpec [] plainDelivery ackThenFail where
  n := 0
  before := []
  ack := { call := .ack }
  after := []
  counted := rfl
  enters := by simp [workContexts, AllEnter, contextsOf, interceptAll, containerInterceptor,
    Context.ofGenerator, Except.mapError]
  split := rfl
  isAck := rfl
  succeeds := rfl

/-- The failure after the acknowledgement schedules a retry copy of the message. -/
theorem ack_then_fail_retried :
    settlements (final retriedSpec [] plainDelivery ackThenFail).log = [.ack] ∧
      (copies (final retriedSpec [] plainDelivery ackThenFail).log).length = 1 ∧
      ¬Untouched ackThenFailAcked.state (final retriedSpec [] plainDelivery ackThenFail) := by
  have hcopies : (copies (final retriedSpec [] plainDelivery ackThenFail).log).length = 1 := by
    decide +kernel
  refine ⟨by decide +kernel, hcopies, ?_⟩
  intro h
  have hstate : copies ackThenFailAcked.state.log = [] := rfl
  rw [untouched_copies h, hstate] at hcopies
  simp at hcopies

def ackThenReturn : Execution := { calls := [{ call := .ack }] }

def ackThenReturnAcked : Acked retriedSpec [] plainDelivery ackThenReturn where
  n := 0
  before := []
  ack := { call := .ack }
  after := []
  counted := rfl
  enters := ackThenFailAcked.enters
  split := rfl
  isAck := rfl
  succeeds := rfl

/-- A handler that acknowledges and returns. -/
theorem untouched_after_ack_then_return :
    Untouched ackThenReturnAcked.state (final retriedSpec [] plainDelivery ackThenReturn) :=
  (untouched_after_ack_iff ackThenReturnAcked).mpr ⟨by simp [ackThenReturnAcked], id⟩

end EarlyAck

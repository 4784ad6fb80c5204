import Jararaca.WorkerOutcomes

/-!
# Settlement of the delivery

How often an execution settles its delivery. A second settlement is refused by
aio-pika in every run. Whether there is one at all depends on where the execution was
cut: the conditions below are on the delivery and on what the outside decided, never
on what the worker computed from them.
-/
namespace WorkerSettlement

open Programs Messages UnitOfWork Interceptors Worker WorkerRules WorkerOutcomes

/-- The broker accepts each settlement of an unsettled delivery. -/
def BrokerAccepts (x : Execution) : Prop :=
  x.env.broker = .ok () ∧ ∀ c ∈ x.calls, c.env.broker = .ok ()

/-- The processed flag counts the settlements. -/
def Counted (s : Exec) : Prop := (settlements s.log).length = if s.processed then 1 else 0

theorem settlements_append (a b : List Event) :
    settlements (a ++ b) = settlements a ++ settlements b := by simp [settlements]

@[simp] theorem settlements_uow (events : List (UowEvent Effect)) :
    settlements (events.map .uow) = [] := by
  simp [settlements, List.filterMap_map]

theorem copies_append (a b : List Event) : copies (a ++ b) = copies a ++ copies b := by
  simp [copies]

@[simp] theorem copies_uow (events : List (UowEvent Effect)) : copies (events.map .uow) = [] := by
  simp [copies, List.filterMap_map]

/-- Every operation of the broker counts its settlements. -/
theorem counted_respected : Respected (Prog.Frame.invariant Counted) where
  settle op r := by
    intro s hs
    by_cases hp : s.processed = true
    · rw [settle_refused hp]
      simpa [Counted, Exec.logged, settlements, hp] using hs
    · have hp' : s.processed = false := by simpa using hp
      cases r with
      | ok u =>
        rw [settle_applied hp']
        simpa [Counted, Exec.logged, settlements, hp'] using hs
      | error e =>
        rw [settle_failed hp']
        simpa [Counted, Exec.logged, settlements, hp'] using hs
  enqueue m r := by
    intro s hs
    cases r <;> simpa [enqueueDelayedMessage, Prog.bind_run, Counted, Exec.logged,
      settlements] using hs
  disposition d := fun s hs => hs

theorem counted_record (events : List (UowEvent Effect)) (s : Exec) (hs : Counted s) :
    Counted (Traced.record events s) := by
  simpa [Counted, Traced.record, settlements_append] using hs

/-- Never two: no run settles its delivery a second time. -/
theorem final_counted (spec : HandlerSpec) (interceptors : List Interceptor) (msg : Delivery)
    (x : Execution) : Counted (final spec interceptors msg x) :=
  handleMessage_keeps counted_respected spec msg x counted_record interceptors {} rfl

/-- The ending of the handler leads to a settlement of a delivery that the handler
left open. -/
def EndingSettles (spec : HandlerSpec) (n : Int) (x : Execution) : Prop :=
  match x.ending with
  | .returned => True
  | .raised (.payloadValidationError _) => x.recorded = .ok ()
  | .raised e => e.isException = true ∧ FailureReaches spec n x e

section Endings

variable {spec : HandlerSpec} {msg : Delivery} {implicit : Headers} {n : Int} {x : Execution}
  {s : Exec}

/-- Where the broker accepts, an attempt is a settlement. -/
theorem Settled.accepted {t : Exec} (h : Settled s x.env.broker t) (hb : x.env.broker = .ok ()) :
    t.processed = true := h.processed.mpr (.inr hb)

/-- The ending of a handler that left its delivery open. -/
theorem handlerWithLadder_open (hs : s.processed = false) (hd : s.disposition = none)
    (hb : x.env.broker = .ok ()) (ht : controllerCalls spec msg implicit x.calls s = (.ok (), s)) :
    (handlerWithLadder spec msg implicit n x s).2.processed = true ↔ EndingSettles spec n x := by
  have hreply : settleReply s x.env.broker = .ok () := by simp [settleReply, hb, Cut]
  unfold EndingSettles
  cases hx : x.ending with
  | returned =>
    have hack : acknowledge x s = (.ok (), settleState .ack x.env.broker s) := by
      simp [acknowledge_run, hd, hreply]
    rw [handlerWithLadder_returned hx ht, Prog.tryExcept_ok hack]
    exact iff_of_true (Settled.accepted (settleState_settled _ _ s) hb) trivial
  | raised e =>
    rw [handlerWithLadder_raised hx ht]
    have hexc : e.isException = true → (∀ text, e ≠ .payloadValidationError text) →
        ((exceptLadder spec msg implicit n x e s).2.processed = true ↔
          e.isException = true ∧ FailureReaches spec n x e) := by
      intro he hv
      rw [exceptLadder_exception spec msg implicit n x he hv]
      obtain ⟨hf, t, hrun, ht⟩ | ⟨hf, hst, -⟩ := handleException_cases spec msg implicit n x s e
      · rw [hrun]
        exact iff_of_true (Settled.accepted ht hb) ⟨he, hf⟩
      · simp [hst, hs, hf]
    cases e with
    | messageDisposed d => simp [exceptLadder, hs, PyExc.isException]
    | payloadValidationError text =>
      rw [exceptLadder]
      cases hrec : x.recorded with
      | error e' =>
        rw [rejectUnparseable_unrecorded hrec]
        simp [hs]
      | ok u =>
        have hrej : rejectUnparseable x s =
            (.ok (), settleState (.reject false) x.env.broker s) := by
          simp [rejectUnparseable_run hrec, hd, hreply]
        rw [hrej]
        exact iff_of_true (Settled.accepted (settleState_settled _ _ s) hb) rfl
    | error kind text => exact hexc rfl (by simp)
    | messageProcessError => exact hexc rfl (by simp)
    | timeoutError => exact hexc rfl (by simp)
    | cancelledError => simp [exceptLadder, hs, PyExc.isException]
    | baseException kind => simp [exceptLadder, hs, PyExc.isException]

variable (spec implicit) in
/-- The body of the unit of work settles an open delivery exactly where the handler
reached the broker or its ending leads there. -/
theorem transactionBody_processed (hn : getRetryCount msg.headers = some n)
    (hb : BrokerAccepts x) (hs : s.processed = false) (hd : s.disposition = none) :
    (transactionBody spec msg implicit n x s).2.processed = true ↔
      (∃ c ∈ x.calls, Reaches spec n c) ∨ EndingSettles spec n x := by
  rw [transactionBody_state]
  have hcalls := controllerCalls_ok spec msg implicit x.calls s
  by_cases hreach : ∃ c ∈ x.calls, Reaches spec n c
  · have hp : (controllerCalls spec msg implicit x.calls s).2.processed = true := by
      obtain ⟨c, hc, hr⟩ := hreach
      exact (controllerCalls_processed spec implicit hn x.calls s).mpr (.inr ⟨c, hc, hr, hb.2 c hc⟩)
    exact iff_of_true (handlerWithLadder_extends spec msg implicit n x s processed_respected hp)
      (.inl hreach)
  · have hnone : (controllerCalls spec msg implicit x.calls s).2 = s := by
      obtain ⟨h, -⟩ | ⟨-, h⟩ := controllerCalls_cases spec implicit hn x.calls s
      · exact absurd h hreach
      · exact h
    rw [hnone] at hcalls
    simp only [hreach, false_or]
    exact handlerWithLadder_open hs hd hb.1 hcalls

end Endings

section Settlement

variable (spec : HandlerSpec) (interceptors : List Interceptor) (msg : Delivery) (x : Execution)

/-- Where the worker settles the delivery: the retry count of the delivery is a
number, every interceptor enters, and the handler or the worker reaches the broker. -/
def Settles : Prop :=
  ∃ n, getRetryCount msg.headers = some n ∧ AllEnter (workContexts interceptors msg x) ∧
    ((∃ c ∈ x.calls, Reaches spec n c) ∨ EndingSettles spec n x)

/-- Exactly where an execution settles its delivery. -/
theorem final_processed (hb : BrokerAccepts x) :
    (final spec interceptors msg x).processed = true ↔ Settles spec interceptors msg x := by
  unfold Settles
  cases hn : getRetryCount msg.headers with
  | none =>
    obtain ⟨e, he⟩ := handleMessage_unread spec interceptors x hn {}
    rw [final, he]
    simp
  | some n =>
    by_cases hall : AllEnter (workContexts interceptors msg x)
    · have hbody := transactionBody_processed spec (workHeaders interceptors msg x)
        (s := entered interceptors msg x) hn hb rfl rfl
      rw [final, handleMessage_run hn hall rfl]
      simp only [Option.some.injEq, exists_eq_left', hall, true_and]
      exact hbody
    · obtain ⟨e, events, he⟩ := handleMessage_unentered spec hall {}
      rw [final, he]
      simp [hall, Traced.record]

/-- Never two settlements in any run; exactly one exactly where the worker settles. -/
theorem settled_exactly_once_iff (hb : BrokerAccepts x) :
    (settlements (final spec interceptors msg x).log).length ≤ 1 ∧
      ((settlements (final spec interceptors msg x).log).length = 1 ↔
        Settles spec interceptors msg x) := by
  have hcount := final_counted spec interceptors msg x
  rw [Counted] at hcount
  rw [hcount, ← final_processed spec interceptors msg x hb]
  cases (final spec interceptors msg x).processed <;> simp

end Settlement

/-- A handler with a timeout of one second and the default options. -/
def timedSpec : HandlerSpec where
  topic := "task.topic"
  queueName := "task.topic.Task.run"
  timeout := some 1
  hasExceptionHandler := false
  nackOnException := false
  nackDelayOnException := 5
  retryConfig := none
  consumerRetryPolicy := {}

def plainDelivery : Delivery :=
  ⟨[0x7b, 0x7d], Headers.empty, some "id", none, none, "IncomingMessage"⟩

/-- The handler was still running when its timeout cancelled it. -/
def timedOut : Execution := { ending := .raised .cancelledError, expired := true }

/-- A handler cut by its timeout: the broker would accept, but nothing is settled. -/
theorem timed_out_never_settled : BrokerAccepts timedOut ∧
    (settlements (final timedSpec [] plainDelivery timedOut).log).length = 0 := by
  refine ⟨⟨rfl, by simp [timedOut]⟩, ?_⟩
  rfl

/-- A handler that returns. -/
theorem settled_exactly_once_returned : BrokerAccepts {} ∧
    ((settlements (final timedSpec [] plainDelivery {}).log).length ≤ 1 ∧
      ((settlements (final timedSpec [] plainDelivery {}).log).length = 1 ↔
        Settles timedSpec [] plainDelivery {})) := by
  have hb : BrokerAccepts {} := ⟨rfl, by simp⟩
  exact ⟨hb, settled_exactly_once_iff timedSpec [] plainDelivery {} hb⟩

end WorkerSettlement

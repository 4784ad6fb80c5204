import Jararaca.WorkerSettlement

/-!
# The transaction around a handler

The unit of work wraps the handler together with its except ladder and with the
acknowledgement. What the contexts of the interceptors are told on exit is therefore
not how the handler ended but how the worker's own handling ended, and a context that
fails on exit does so after the delivery was acknowledged.
-/
namespace WorkerTransactions

open Programs Messages UnitOfWork Interceptors Worker WorkerRules WorkerOutcomes WorkerSettlement

/-- The body of an execution adds nothing to the trace of the unit of work. -/
theorem uowEvents_respected : Respected (Prog.Frame.constant fun s : Exec => uowEvents s.log) where
  settle op r s := by
    by_cases hp : s.processed = true
    · rw [settle_refused hp]
      simp [Prog.Frame.constant, Exec.logged, uowEvents]
    · have hp' : s.processed = false := by simpa using hp
      cases r with
      | ok u =>
        rw [settle_applied hp']
        simp [Prog.Frame.constant, Exec.logged, uowEvents]
      | error e =>
        rw [settle_failed hp']
        simp [Prog.Frame.constant, Exec.logged, uowEvents]
  enqueue m r s := by
    cases r with
    | ok u =>
      simp [Prog.Frame.constant, enqueueDelayedMessage, Prog.bind_run, Exec.logged, uowEvents]
    | error e => rfl
  disposition d s := rfl

@[simp] theorem uowEvents_record (events : List (UowEvent Effect)) (s : Exec) :
    uowEvents (Traced.record events s).log = uowEvents s.log ++ events := by
  have hmap : uowEvents (events.map .uow) = events := by
    unfold uowEvents
    rw [List.filterMap_map]
    exact List.filterMap_some
  change uowEvents (s.log ++ events.map .uow) = _
  conv_rhs => rw [← hmap]
  simp [uowEvents]

section Runs

variable {spec : HandlerSpec} {interceptors : List Interceptor} {msg : Delivery} {x : Execution}
  {n : Int}

/-- The trace of the unit of work of an execution. -/
theorem final_uowEvents (hn : getRetryCount msg.headers = some n)
    (h : AllEnter (workContexts interceptors msg x)) {r : Reply} {t : Exec}
    (hb : transactionBody spec msg (workHeaders interceptors msg x) n x
      (entered interceptors msg x) = (r, t)) :
    uowEvents (final spec interceptors msg x).log =
      enterTrace 0 (workContexts interceptors msg x) ++
        exitTrace (exitOrder (workContexts interceptors msg x)) (raisedBy r) := by
  have hbody :=
    transactionBody_keeps uowEvents_respected spec msg (workHeaders interceptors msg x) x
    n (entered interceptors msg x)
  rw [hb] at hbody
  have ht : uowEvents t.log = enterTrace 0 (workContexts interceptors msg x) := by
    refine Eq.trans hbody ?_
    simp only [entered, uowEvents_record]
    rfl
  rw [final, handleMessage_run hn h hb, uowEvents_record, ht]

end Runs

/-- The handler failed: it raised an `Exception`, its payload did not validate, or it was
disposed of. -/
def Failed (x : Execution) : Prop :=
  ∃ e, x.ending = .raised e ∧ (e.isException = true ∨ ∃ d, e = .messageDisposed d)

/-- What ends the worker's handling of the failure and gets past the clauses around it:
before it settles, or while it settles a delivery no call settled before. -/
def HandlingCutBy (spec : HandlerSpec) (n : Int) (x : Execution) (e : PyExc) : Prop :=
  match x.ending with
  | .returned => False
  | .raised (.messageDisposed _) => False
  | .raised (.payloadValidationError _) =>
    escaping x.recorded = some e ∨
      (x.recorded = .ok () ∧ (∀ c ∈ x.calls, ¬Disposes spec n c) ∧ CutBy x.env.broker e)
  | .raised failure =>
    FailureCutBy spec n x failure e ∨
      (FailureReaches spec n x failure ∧ (∀ c ∈ x.calls, ¬Accepts spec n c) ∧
        CutBy x.env.broker e)

/-- Only one thing cuts the handling. -/
theorem HandlingCutBy.unique {spec : HandlerSpec} {n : Int} {x : Execution} {e e' : PyExc}
    (h : HandlingCutBy spec n x e) (h' : HandlingCutBy spec n x e') : e = e' := by
  unfold HandlingCutBy at h h'
  split at h
  · exact h.elim
  · exact h.elim
  · next hx =>
    simp only [hx] at h'
    obtain hc | ⟨hr, -, hc⟩ := h
    · obtain hc' | ⟨hr', -, -⟩ := h'
      · rw [hc] at hc'
        exact Option.some.inj hc'
      · rw [hr'] at hc
        cases hc
    · obtain hc' | ⟨-, -, hc'⟩ := h'
      · rw [hr] at hc'
        cases hc'
      · exact hc.unique hc'
  · next hv hx =>
    simp only [hx] at h'
    obtain hc | ⟨hr, -, hc⟩ := h
    · obtain hc' | ⟨hr', -, -⟩ := h'
      · exact hc.unique hc'
      · exact absurd hc hr'.not_cut
    · obtain hc' | ⟨-, -, hc'⟩ := h'
      · exact absurd hc' hr.not_cut
      · exact hc.unique hc'

/-- `C` says what gets out of the body. -/
def LeavesBy (r : Reply) (C : PyExc → Prop) : Prop := ∀ e, escaping r = some e ↔ C e

theorem LeavesBy.congr {r : Reply} {C C' : PyExc → Prop} (h : LeavesBy r C)
    (hC : ∀ e, C e ↔ C' e) : LeavesBy r C' := fun e => (h e).trans (hC e)

/-- How an attempt to settle leaves the body. -/
theorem settleReply_leaves (r : Reply) (s : Exec) :
    LeavesBy (settleReply s r) fun e => s.processed = false ∧ CutBy r e := by
  intro e
  obtain ⟨hr, hcut⟩ | ⟨e', hr, hp, he⟩ := settleReply_cases r s
  · rw [hr]
    refine iff_of_false (by simp [escaping]) ?_
    rintro ⟨hp, he⟩
    exact hcut ⟨hp, cut_iff.mpr ⟨e, he⟩⟩
  · rw [hr, escaping, escapes_cut he.2, Option.some.injEq]
    constructor
    · rintro rfl
      exact ⟨hp, he⟩
    · rintro ⟨-, he'⟩
      exact he.unique he'

section Failure

variable {spec : HandlerSpec} {msg : Delivery} {implicit : Headers} {n : Int} {x : Execution}

variable (spec msg implicit n x) in
/-- How the branch of an ordinary exception leaves the body. -/
theorem exceptLadder_exception_leaves {e : PyExc} (he : e.isException = true)
    (hv : ∀ text, e ≠ .payloadValidationError text) (t : Exec) :
    LeavesBy (exceptLadder spec msg implicit n x e t).1 fun e' =>
      FailureCutBy spec n x e e' ∨
        (FailureReaches spec n x e ∧ t.processed = false ∧ CutBy x.env.broker e') := by
  rw [exceptLadder_exception spec msg implicit n x he hv]
  obtain ⟨hreach, u, hrun, -⟩ | ⟨hreach, -, hcut⟩ := handleException_cases spec msg implicit n x t e
  · rw [hrun]
    refine (settleReply_leaves x.env.broker t).congr fun e' => ?_
    simp only [hreach.not_cut, hreach, true_and, false_or]
  · intro e'
    rw [← hcut e']
    simp only [hreach, false_and, or_false]

variable (spec msg implicit n x) in
/-- How the branch of a payload that does not validate leaves the body. -/
theorem exceptLadder_unparseable_leaves (text : String) {t : Exec}
    (hopen : t.disposition = none → t.processed = false) :
    LeavesBy (exceptLadder spec msg implicit n x (.payloadValidationError text) t).1 fun e =>
      escaping x.recorded = some e ∨
        (x.recorded = .ok () ∧ t.disposition = none ∧ CutBy x.env.broker e) := by
  rw [exceptLadder]
  cases hrec : x.recorded with
  | error e' =>
    rw [rejectUnparseable_unrecorded hrec]
    intro e
    simp
  | ok u =>
    have hnone : ∀ e, ¬escaping (.ok u) = some e := fun e => by simp [escaping]
    rw [rejectUnparseable_run hrec]
    cases hd : t.disposition with
    | some d =>
      intro e
      simp [escaping]
    | none =>
      refine (settleReply_leaves x.env.broker t).congr fun e => ?_
      simp [hopen hd, hnone]

variable (spec implicit) in
/-- The body of a failed handler returns, or raises what ended the handling. -/
theorem transactionBody_failed (hn : getRetryCount msg.headers = some n) (hf : Failed x) {s : Exec}
    (hs : s.processed = false) (hd : s.disposition = none) :
    ((transactionBody spec msg implicit n x s).1 = .ok () ∧ ∀ e, ¬HandlingCutBy spec n x e) ∨
      (∃ e, HandlingCutBy spec n x e ∧
        (transactionBody spec msg implicit n x s).1 = .error (timeoutOf spec x e)) := by
  obtain ⟨e, hx, he⟩ := hf
  have ht := controllerCalls_ok spec msg implicit x.calls s
  obtain ⟨t, hst⟩ : ∃ t, (controllerCalls spec msg implicit x.calls s).2 = t := ⟨_, rfl⟩
  have hopen : t.processed = false ↔ ∀ c ∈ x.calls, ¬Accepts spec n c := by
    have h := controllerCalls_processed spec implicit hn x.calls s
    rw [hst] at h
    simp [← Bool.not_eq_true, h, hs]
  have hnone : t.disposition = none ↔ ∀ c ∈ x.calls, ¬Disposes spec n c := by
    have h := controllerCalls_disposition spec implicit hn x.calls s (by simp [hs])
    rw [hst] at h
    simp [← Option.not_isSome_iff_eq_none, h, hd]
  rw [hst] at ht
  have hbody : (transactionBody spec msg implicit n x s).1 =
      leavesBody spec x (exceptLadder spec msg implicit n x e t).1 := by
    rw [transactionBody_run (handlerWithLadder_raised hx ht)]
    rfl
  have hexc : e.isException = true → (∀ text, e ≠ .payloadValidationError text) →
      LeavesBy (exceptLadder spec msg implicit n x e t).1 fun e' =>
        FailureCutBy spec n x e e' ∨ (FailureReaches spec n x e ∧
          (∀ c ∈ x.calls, ¬Accepts spec n c) ∧ CutBy x.env.broker e') := by
    intro he hv
    refine (exceptLadder_exception_leaves spec msg implicit n x he hv t).congr fun e' => ?_
    rw [hopen]
  suffices hleaves : LeavesBy (exceptLadder spec msg implicit n x e t).1 (HandlingCutBy spec n x) by
    rw [hbody, leavesBody]
    cases hesc : escaping (exceptLadder spec msg implicit n x e t).1 with
    | none =>
      refine .inl ⟨rfl, fun e' hcut => ?_⟩
      rw [← hleaves, hesc] at hcut
      cases hcut
    | some e' => exact .inr ⟨e', (hleaves e').mp hesc, rfl⟩
  unfold HandlingCutBy
  simp only [hx]
  cases e with
  | messageDisposed d =>
    intro e'
    simp [exceptLadder, escaping]
  | payloadValidationError text =>
    have hundisposed : t.disposition = none → t.processed = false := by
      intro hdisp
      rw [hopen]
      intro c hc ha
      exact hnone.mp hdisp c hc ha.disposes
    refine (exceptLadder_unparseable_leaves spec msg implicit n x text hundisposed).congr fun e' =>
      ?_
    rw [hnone]
  | cancelledError => simp [PyExc.isException] at he
  | baseException kind => simp [PyExc.isException] at he
  | error kind text => exact hexc rfl (by simp)
  | messageProcessError => exact hexc rfl (by simp)
  | timeoutError => exact hexc rfl (by simp)

end Failure

/-- What a failed execution owes its interceptors: every context that was entered is
exited with an exception, so that a database session is rolled back and not committed
and a publisher sends nothing. The container is the first context. -/
structure RolledBack (interceptors : List Interceptor)
    (events : List (UowEvent Effect)) : Prop where
  exited : ∀ p, .entered p ∈ events → ∃ e, .exited p (some e) ∈ events
  failed : ∀ p e, .exited p e ∈ events → e.isSome = true
  session : ∀ p connection env,
    interceptors[p]? = some (aioSqlAlchemySessionInterceptor connection env) →
      (∀ c, .effect (p + 1) (.commit c) ∉ events) ∧
      (env.usesConnection = true → env.txActive = true → env.rollback = .ok () →
        .effect (p + 1) (.rollback connection) ∈ events)
  publisher : ∀ p atEnd env,
    interceptors[p]? = some (messageBusPublisherInterceptor atEnd env) →
      ∀ effect, .effect (p + 1) effect ∉ events

section Rollback

variable {spec : HandlerSpec} {interceptors : List Interceptor} {msg : Delivery} {x : Execution}
  {n : Int}

/-- An effect of a context of the stack, seen in a run whose exits all had an exception. -/
theorem effect_of_failed {exc : Option PyExc} {p : Nat} {a : Effect} {i : Interceptor}
    (hi : interceptors[p]? = some i)
    (hall : Unsuppressed (exitOrder (workContexts interceptors msg x)) exc)
    (hmem : .effect (p + 1) a ∈ enterTrace 0 (workContexts interceptors msg x) ++
      exitTrace (exitOrder (workContexts interceptors msg x)) exc) :
    ∃ t, a ∈ (i.intercept t).enter.2 ∨ ∃ e, a ∈ ((i.intercept t).exit (some e)).2 := by
  have hctx := contextsOf_getElem? x.staged hi (providedHeaders msg x)
  refine ⟨⟨implicitInside (providedHeaders msg x) (interceptors.take p), x.staged⟩, ?_⟩
  obtain henter | hexit := List.mem_append.mp hmem
  · obtain ⟨-, c, hc, ha⟩ := enterTrace_effect henter
    rw [Nat.sub_zero, workContexts, hctx] at hc
    cases hc
    exact .inl ha
  · obtain ⟨c, e, hc, he, ha⟩ := exitTrace_effect hexit
    have hsome := unsuppressed_iff.mpr hall (p + 1) e he
    obtain ⟨e', rfl⟩ := Option.isSome_iff_exists.mp hsome
    rw [mem_exitOrder, workContexts, hctx] at hc
    cases hc
    exact .inr ⟨e', ha⟩

/-- The debt is paid exactly where the exit loop shows an exception to every context. -/
theorem rolledBack_iff_unsuppressed (exc : Option PyExc) :
    RolledBack interceptors (enterTrace 0 (workContexts interceptors msg x) ++
      exitTrace (exitOrder (workContexts interceptors msg x)) exc) ↔
    Unsuppressed (exitOrder (workContexts interceptors msg x)) exc := by
  constructor
  · intro h
    rw [← unsuppressed_iff]
    intro p e he
    exact h.failed p e (by simp [he])
  · intro hall
    have hsome := unsuppressed_iff.mpr hall
    refine ⟨?_, ?_, ?_, ?_⟩
    · intro p hp
      obtain henter | hexit := List.mem_append.mp hp
      · obtain ⟨-, c, hc⟩ := enterTrace_entered henter
        rw [Nat.sub_zero] at hc
        obtain ⟨e, he, -⟩ := exitTrace_exits exc (mem_exitOrder.mpr hc)
        obtain ⟨e', rfl⟩ := Option.isSome_iff_exists.mp (hsome p e he)
        exact ⟨e', by simp [he]⟩
      · exact absurd hexit entered_not_mem_exitTrace
    · intro p e he
      obtain henter | hexit := List.mem_append.mp he
      · exact absurd henter (exited_not_mem_enterTrace e)
      · exact hsome p e hexit
    · intro p connection env hi
      constructor
      · intro c hmem
        obtain ⟨t, henter | ⟨e, hexit⟩⟩ := effect_of_failed hi hall hmem
        · simp [session_enter_effects] at henter
        · rw [session_exit_failed] at hexit
          split at hexit <;> simp at hexit
      · intro hu ha hr
        have hctx := contextsOf_getElem? x.staged hi (providedHeaders msg x)
        obtain ⟨e, he, heff⟩ := exitTrace_exits exc (mem_exitOrder.mpr hctx)
        obtain ⟨e', rfl⟩ := Option.isSome_iff_exists.mp (hsome (p + 1) e he)
        have hroll := heff (.rollback connection)
          (by rw [session_exit_failed, if_pos ⟨hu, ha, hr⟩]; simp)
        exact List.mem_append.mpr (.inr hroll)
    · intro p atEnd env hi effect hmem
      obtain ⟨t, henter | ⟨e, hexit⟩⟩ := effect_of_failed hi hall hmem
      · simp [publisher_enter_effects] at henter
      · simp [publisher_exit_failed] at hexit

/-- A failed execution rolls its transaction back exactly where the worker's handling
of the failure is itself cut and no interceptor suppresses what cut it. -/
theorem rolled_back_iff (hn : getRetryCount msg.headers = some n)
    (hall : AllEnter (workContexts interceptors msg x)) (hf : Failed x) :
    RolledBack interceptors (uowEvents (final spec interceptors msg x).log) ↔
      ∃ e, HandlingCutBy spec n x e ∧
        Unsuppressed (exitOrder (workContexts interceptors msg x)) (some (timeoutOf spec x e)) := by
  obtain ⟨r, t, hbody⟩ : ∃ r t, transactionBody spec msg (workHeaders interceptors msg x) n x
      (entered interceptors msg x) = (r, t) := ⟨_, _, rfl⟩
  have hcases := transactionBody_failed spec (workHeaders interceptors msg x)
    (s := entered interceptors msg x) hn hf rfl rfl
  rw [hbody] at hcases
  rw [final_uowEvents hn hall hbody, rolledBack_iff_unsuppressed]
  obtain ⟨hr, hnone⟩ | ⟨e, he, hr⟩ := hcases
  · refine iff_of_false ?_ ?_
    · rw [show r = .ok () from hr]
      intro h
      exact List.cons_ne_nil _ _ (unsuppressed_none h)
    · rintro ⟨e, he, -⟩
      exact hnone e he
  · rw [show r = .error (timeoutOf spec x e) from hr]
    constructor
    · intro h
      exact ⟨e, he, h⟩
    · rintro ⟨e', he', h⟩
      rwa [HandlingCutBy.unique he he']

end Rollback

/-- A publisher and a database session, as an application stacks them. -/
def applicationStack : List Interceptor :=
  [messageBusPublisherInterceptor true {}, aioSqlAlchemySessionInterceptor "default" {}]

def publishThenFail : Execution where
  staged := [.publish ⟨"user.created", [], false⟩]
  ending := .raised (.error "ValueError" "half done")

/-- The failed handler is committed and its message is sent. -/
theorem publish_then_fail_committed : Failed publishThenFail ∧
    .effect 2 (.commit "default") ∈
      uowEvents (final timedSpec applicationStack plainDelivery publishThenFail).log ∧
    (∃ m, .effect 1 (.published m) ∈
      uowEvents (final timedSpec applicationStack plainDelivery publishThenFail).log) ∧
    ¬RolledBack applicationStack
      (uowEvents (final timedSpec applicationStack plainDelivery publishThenFail).log) := by
  have hcommit : .effect 2 (.commit "default") ∈
      uowEvents (final timedSpec applicationStack plainDelivery publishThenFail).log :=
    List.mem_of_getElem? (i := 4) rfl
  refine ⟨⟨_, rfl, .inl rfl⟩, hcommit, ⟨_, List.mem_of_getElem? (i := 6) rfl⟩, ?_⟩
  intro h
  exact (h.session 1 "default" {} rfl).1 "default" hcommit

/-- The handler fails and its timeout passes during the delay before the rejection. -/
def failThenTimeout : Execution where
  staged := [.publish ⟨"user.created", [], false⟩]
  ending := .raised (.error "ValueError" "half done")
  expired := true
  wait := .error .cancelledError

theorem applicationStack_enters (x : Execution) :
    AllEnter (workContexts applicationStack plainDelivery x) := by
  intro c hc
  simp only [workContexts, contextsOf, interceptAll, applicationStack, List.mem_cons,
    List.not_mem_nil, or_false] at hc
  obtain rfl | rfl | rfl := hc <;> rfl

/-- A handler that fails and then runs out of time. -/
theorem fail_then_timeout_rolled_back : RolledBack applicationStack
    (uowEvents (final timedSpec applicationStack plainDelivery failThenTimeout).log) := by
  have hall := applicationStack_enters failThenTimeout
  refine (rolled_back_iff (n := 0) rfl hall ⟨_, rfl, .inl rfl⟩).mpr ⟨.cancelledError, ?_, ?_⟩
  · exact .inl (.inr ⟨⟨rfl, rfl⟩, rfl, rfl⟩)
  · exact ⟨rfl, rfl, rfl, trivial⟩

section Acknowledgement

variable {spec : HandlerSpec} {interceptors : List Interceptor} {msg : Delivery} {x : Execution}
  {n : Int}

/-- The handler returned and left the delivery to the worker. -/
structure ReturnedOpen (spec : HandlerSpec) (interceptors : List Interceptor) (msg : Delivery)
    (x : Execution) : Prop where
  returned : x.ending = .returned
  unsettled : (controllerCalls spec msg (workHeaders interceptors msg x) x.calls
    (entered interceptors msg x)).2.processed = false
  undisposed : (controllerCalls spec msg (workHeaders interceptors msg x) x.calls
    (entered interceptors msg x)).2.disposition = none
  uncopied : copies (controllerCalls spec msg (workHeaders interceptors msg x) x.calls
    (entered interceptors msg x)).2.log = []

/-- No message disappears while its effects were not committed: acknowledged only where
every context exited without raising, and given back where one raised. -/
def Kept (log : List Event) : Prop :=
  (.ack ∈ settlements log → ∀ p e, .exitFailed p e ∉ uowEvents log) ∧
    ((∃ p e, .exitFailed p e ∈ uowEvents log) →
      (∃ op ∈ settlements log, op ≠ .ack) ∨ copies log ≠ [])

/-- What the body raises where the acknowledgement is cut; a `MessageDisposed` is taken
for a disposition. -/
def acknowledgementCut (spec : HandlerSpec) (x : Execution) : Option PyExc :=
  match x.env.broker with
  | .ok _ => none
  | .error (.messageDisposed _) => none
  | .error e => if e.isException then none else some (timeoutOf spec x e)

/-- The body of a handler that left the delivery to the worker. -/
theorem transactionBody_returnedOpen (ho : ReturnedOpen spec interceptors msg x) :
    ∃ r, transactionBody spec msg (workHeaders interceptors msg x) n x
      (entered interceptors msg x) =
        (r, settleState .ack x.env.broker (controllerCalls spec msg (workHeaders interceptors msg x)
          x.calls (entered interceptors msg x)).2) ∧ raisedBy r = acknowledgementCut spec x := by
  obtain ⟨t, ht⟩ : ∃ t, (controllerCalls spec msg (workHeaders interceptors msg x) x.calls
      (entered interceptors msg x)).2 = t := ⟨_, rfl⟩
  have hp := ho.unsettled
  have hd := ho.undisposed
  have hcalls := controllerCalls_ok spec msg (workHeaders interceptors msg x) x.calls
    (entered interceptors msg x)
  rw [ht] at hp hd hcalls ⊢
  have hladder := handlerWithLadder_returned (n := n) ho.returned hcalls
  have hack : acknowledge x t = (settleReply t x.env.broker, settleState .ack x.env.broker t) := by
    simp [acknowledge_run, hd]
  obtain ⟨hr, hcut⟩ | ⟨e, hr, -, he⟩ := settleReply_cases x.env.broker t
  · rw [hr] at hack
    rw [Prog.tryExcept_ok hack] at hladder
    refine ⟨.ok (), transactionBody_run hladder, ?_⟩
    unfold acknowledgementCut
    cases hb : x.env.broker with
    | ok u => rfl
    | error e =>
      have he : e.isException = true := by simpa [hp, hb, Cut] using hcut
      cases e <;> simp_all [raisedBy]
  · rw [hr] at hack
    rw [Prog.tryExcept_error hack] at hladder
    -- a cut met by the success path still goes through the except ladder
    cases e with
    | messageDisposed d =>
      refine ⟨.ok (), transactionBody_run hladder, ?_⟩
      simp [acknowledgementCut, he.1, raisedBy]
    | cancelledError =>
      refine ⟨.error (timeoutOf spec x .cancelledError), transactionBody_run hladder, ?_⟩
      simp [acknowledgementCut, he.1, he.2, raisedBy]
    | baseException kind =>
      refine ⟨.error (timeoutOf spec x (.baseException kind)), transactionBody_run hladder, ?_⟩
      simp [acknowledgementCut, he.1, he.2, raisedBy]
    | error kind text => cases he.2
    | messageProcessError => cases he.2
    | payloadValidationError text => cases he.2
    | timeoutError => cases he.2

/-- The worker does nothing but acknowledge a delivery that was left to it. -/
theorem final_returnedOpen (hn : getRetryCount msg.headers = some n)
    (hall : AllEnter (workContexts interceptors msg x))
    (ho : ReturnedOpen spec interceptors msg x) :
    (∀ op ∈ settlements (final spec interceptors msg x).log, op = .ack) ∧
      copies (final spec interceptors msg x).log = [] := by
  obtain ⟨r, hbody, -⟩ := transactionBody_returnedOpen (n := n) ho
  obtain ⟨t, ht⟩ : ∃ t, (controllerCalls spec msg (workHeaders interceptors msg x) x.calls
      (entered interceptors msg x)).2 = t := ⟨_, rfl⟩
  have hcounted : Counted t := by
    rw [← ht]
    exact controllerCalls_keeps counted_respected spec msg _ x.calls _
      (counted_record _ {} rfl)
  have hp := ho.unsettled
  have hc := ho.uncopied
  rw [ht] at hp hc hbody
  have hnone : settlements t.log = [] := by
    simpa [Counted, hp] using hcounted
  have hstate : (∀ op ∈ settlements (settleState .ack x.env.broker t).log, op = .ack) ∧
      copies (settleState .ack x.env.broker t).log = [] := by
    unfold settleState
    split
    · simp only [Exec.logged, settlements_append, copies_append, hnone, hc]
      simp [settlements, copies]
    · simp only [Exec.logged, settlements_append, copies_append, hnone, hc]
      simp [settlements, copies]
  rw [final, handleMessage_run hn hall hbody]
  simpa only [Traced.record, settlements_append, settlements_uow, copies_append, copies_uow,
    List.append_nil] using hstate

/-- Nothing is lost exactly where no context raises on exit. -/
theorem kept_iff (hn : getRetryCount msg.headers = some n)
    (hall : AllEnter (workContexts interceptors msg x))
    (ho : ReturnedOpen spec interceptors msg x) :
    Kept (final spec interceptors msg x).log ↔
      ExitsCleanly (exitOrder (workContexts interceptors msg x)) (acknowledgementCut spec x) := by
  obtain ⟨r, hbody, hraised⟩ := transactionBody_returnedOpen (n := n) ho
  obtain ⟨hack, hcopies⟩ := final_returnedOpen hn hall ho
  have hevents := final_uowEvents hn hall hbody
  rw [hraised] at hevents
  rw [← exitsCleanly_iff]
  constructor
  · intro hkept p e hmem
    obtain ⟨op, hop, hne⟩ | hne := hkept.2 ⟨p, e, by rw [hevents]; simp [hmem]⟩
    · exact hne (hack op hop)
    · exact hne hcopies
  · intro hclean
    have hnone : ∀ p e, .exitFailed p e ∉ uowEvents (final spec interceptors msg x).log := by
      intro p e
      rw [hevents, List.mem_append, not_or]
      exact ⟨exitFailed_not_mem_enterTrace e, hclean p e⟩
    refine ⟨fun _ => hnone, ?_⟩
    rintro ⟨p, e, hmem⟩
    exact absurd hmem (hnone p e)

end Acknowledgement

def refusingStack : List Interceptor :=
  [aioSqlAlchemySessionInterceptor "default"
    { commit := .error (.error "IntegrityError" "duplicate") }]

theorem returnedOpen_quiet (interceptors : List Interceptor) :
    ReturnedOpen timedSpec interceptors plainDelivery {} := by
  refine ⟨rfl, rfl, rfl, ?_⟩
  change copies ([] ++ _) = []
  rw [copies_append, copies_uow]
  rfl

/-- The commit fails on exit, and the message is acknowledged all the same. -/
theorem refused_commit_acknowledged : ReturnedOpen timedSpec refusingStack plainDelivery {} ∧
    settlements (final timedSpec refusingStack plainDelivery {}).log = [.ack] ∧
    .exitFailed 1 (.error "IntegrityError" "duplicate") ∈
      uowEvents (final timedSpec refusingStack plainDelivery {}).log ∧
    ¬Kept (final timedSpec refusingStack plainDelivery {}).log := by
  have hfail : .exitFailed 1 (.error "IntegrityError" "duplicate") ∈
      uowEvents (final timedSpec refusingStack plainDelivery {}).log :=
    List.mem_of_getElem? (i := 3) rfl
  have hack : settlements (final timedSpec refusingStack plainDelivery {}).log = [.ack] := rfl
  refine ⟨returnedOpen_quiet refusingStack, hack, hfail, ?_⟩
  intro h
  exact h.1 (by simp [hack]) _ _ hfail

/-- A handler that acknowledges and returns. -/
theorem kept_committed : Kept (final timedSpec applicationStack plainDelivery {}).log := by
  have hall := applicationStack_enters {}
  exact (kept_iff (n := 0) rfl hall (returnedOpen_quiet applicationStack)).mpr
    ⟨⟨false, rfl⟩, ⟨false, rfl⟩, ⟨false, rfl⟩, trivial⟩

end WorkerTransactions

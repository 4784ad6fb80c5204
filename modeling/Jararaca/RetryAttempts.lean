import Jararaca.WorkerSettlement

/-!
# One attempt at a message

An attempt is an execution that returns, raises, or asks for a retry, with a broker
that accepts. Where the hand-off of the retry copy succeeds, an attempt ends in one of
four ways, told apart by the settlements and the copies in its log.
-/
namespace RetryAttempts

open Programs Messages UnitOfWork Interceptors Worker WorkerRules WorkerOutcomes WorkerSettlement

def isRetry : ControllerCall → Bool
  | .retry _ | .retryLater _ => true
  | _ => false

/-- How an attempt ends: it returns, it raises an `Exception` that is to be retried, or it
asks for a retry itself. -/
inductive AttemptKind (spec : HandlerSpec) (x : Execution) : Prop where
  | returns (calls : x.calls = []) (ending : x.ending = .returned)
  | raises (nack : spec.nackOnException = true) (calls : x.calls = []) (e : PyExc)
      (ending : x.ending = .raised e) (exception : e.isException = true)
  | asks (c : HandlerCall) (calls : x.calls = [c]) (retry : isRetry c.call = true)
      (ending : x.ending = .raised (.messageDisposed .retry))

/-- The exception handler of the application is called and cut. -/
def ExceptionHandlerCut (spec : HandlerSpec) (x : Execution) : Prop :=
  spec.hasExceptionHandler = true ∧ Cut x.exceptionHandler

/-- An attempt at a delivery. The contexts of the interceptors enter, the broker accepts
each settlement, the span takes what is recorded and no exception handler is cut. -/
structure Attempt (spec : HandlerSpec) (interceptors : List Interceptor) (msg : Delivery)
    (x : Execution) : Prop where
  enters : AllEnter (workContexts interceptors msg x)
  broker : BrokerAccepts x
  recorded : x.recorded = .ok ()
  handler : ¬ExceptionHandlerCut spec x
  kind : AttemptKind spec x

/-- Every retry is asked for on the handler's own stack, for a time that is a finite float
while the budget lasts, and the broker backend accepts the copy. -/
structure HandsOff (spec : HandlerSpec) (msg : Delivery) (x : Execution) : Prop where
  worker : x.env.backend = .ok ()
  calls : ∀ c ∈ x.calls, c.onStack = true ∧ c.env.backend = .ok () ∧
    ∃ delay, c.call.delay = some delay ∧ ∀ n, getRetryCount msg.headers = some n →
      n < spec.retryPolicy.maxRetries → ∃ time, dispatchTime c.env.now delay = .ok time

/-- The environments in which an execution may settle. -/
def environments (x : Execution) : List SettleEnv := x.env :: x.calls.map HandlerCall.env

/-- What an accepted settlement adds to the log. -/
theorem settleState_report {s : Exec} (hs : s.processed = false) (op : Settlement) {r : Reply}
    (hr : r = .ok ()) :
    settlements (settleState op r s).log = settlements s.log ++ [op] ∧
      copies (settleState op r s).log = copies s.log := by
  simp [settleState, hs, hr, Exec.logged, settlements, copies]

section Reports

variable {spec : HandlerSpec} {interceptors : List Interceptor} {msg : Delivery}
  {implicit : Headers} {n : Int} {x : Execution}

variable (spec) in
/-- The settlements and copies of an execution are those of its body. -/
theorem final_report (hn : getRetryCount msg.headers = some n)
    (hall : AllEnter (workContexts interceptors msg x)) :
    settlements (final spec interceptors msg x).log = settlements (handlerWithLadder spec msg
        (workHeaders interceptors msg x) n x (entered interceptors msg x)).2.log ∧
      copies (final spec interceptors msg x).log = copies (handlerWithLadder spec msg
        (workHeaders interceptors msg x) n x (entered interceptors msg x)).2.log := by
  obtain ⟨r, t, hbody⟩ : ∃ r t, transactionBody spec msg (workHeaders interceptors msg x) n x
      (entered interceptors msg x) = (r, t) := ⟨_, _, rfl⟩
  have hstate := transactionBody_state spec msg (workHeaders interceptors msg x) n x
    (entered interceptors msg x)
  rw [hbody] at hstate
  rw [final, handleMessage_run hn hall hbody, ← hstate]
  simp [Traced.record, settlements_append, copies_append]

variable (interceptors msg x) in
theorem entered_report : settlements (entered interceptors msg x).log = [] ∧
    copies (entered interceptors msg x).log = [] := by
  have hlog : (entered interceptors msg x).log =
      (enterTrace 0 (workContexts interceptors msg x)).map .uow := by
    simp [entered, Traced.record]
  rw [hlog]
  simp

variable (spec msg implicit n) in
/-- Handling an exception that is retried leaves what the hand-off leaves, or nothing where
the exception has no text for the log. -/
theorem handleException_state (hnack : spec.nackOnException = true) (hrec : x.recorded = .ok ())
    (hcut : ¬ExceptionHandlerCut spec x) (e : PyExc) (s : Exec) :
    (handleException spec msg implicit n x e s).2 =
        (scheduleRetry spec msg implicit n none (some e) x.env s).2 ∨
      (e.strFailure ≠ none ∧ (handleException spec msg implicit n x e s).2 = s) := by
  obtain ⟨-, hrun⟩ | ⟨e', hraises, hrun⟩ := noteException_cases spec msg x s e
  · left
    rw [handleException, Prog.bind_ok hrun, if_pos hnack, handleRejectMessage, logging_state]
    simp only [hnack, Bool.not_false, Option.isSome_some, Bool.and_self, if_true]
    cases h : scheduleRetry spec msg implicit n none (some e) x.env s with
    | mk r t => cases r <;> simp [Prog.bind_run, h]
  · right
    rw [handleException, Prog.bind_error hrun]
    refine ⟨?_, rfl⟩
    obtain hr | ⟨-, hnote⟩ := hraises
    · rw [hrec] at hr
      cases hr
    · split at hnote
      · next hspec => exact absurd ⟨hspec, cut_iff.mpr ⟨e', hnote⟩⟩ hcut
      · next hspec => simp [hnote]

/-- The failure of an execution makes no copy: it has no text, or its backoff is no time. -/
def Unmade (spec : HandlerSpec) (n : Int) (x : Execution) : Prop :=
  ∃ e, x.ending = .raised e ∧ e.isException = true ∧ (∀ text, e ≠ .payloadValidationError text) ∧
    (e.strFailure ≠ none ∨ (n < spec.retryPolicy.maxRetries ∧ ¬Backoff spec n x.env))

/-- The ways a hand-off with a willing backend and broker ends. -/
inductive HandedOff (spec : HandlerSpec) (msg : Delivery) (implicit : Headers) (n : Int)
    (x : Execution) (log : List Event) : Prop where
  /-- the budget is spent, or the payload will never parse -/
  | rejected (settled : settlements log = [.reject false]) (copied : copies log = [])
  | scheduled (budget : ¬spec.retryPolicy.maxRetries ≤ n) (settled : settlements log = [.ack])
      (time : Int) (text : Option String) (env : SettleEnv) (mem : env ∈ environments x)
      (bounded : ∃ q : ℚ, |q| < floatLimit ∧ time = truncate q)
      (copied : copies log = [retryCopy spec msg implicit n time text env])
  /-- the worker's own retry makes no copy -/
  | stuck (unmade : Unmade spec n x) (settled : settlements log = []) (copied : copies log = [])

/-- Only the settlements and the copies of a log matter. -/
theorem HandedOff.of_log {log log' : List Event} (h : HandedOff spec msg implicit n x log)
    (hs : settlements log' = settlements log) (hc : copies log' = copies log) :
    HandedOff spec msg implicit n x log' := by
  cases h with
  | rejected settled copied => exact .rejected (hs.trans settled) (hc.trans copied)
  | scheduled budget settled time text env mem bounded copied =>
    exact .scheduled budget (hs.trans settled) time text env mem bounded (hc.trans copied)
  | stuck unmade settled copied => exact .stuck unmade (hs.trans settled) (hc.trans copied)

variable (spec msg implicit n x) in
/-- `_schedule_retry` hands the message on: a copy and an acknowledgement, or a rejection. -/
theorem scheduleRetry_report (delay : Option Seconds) (exc : Option PyExc) (env : SettleEnv)
    (hmem : env ∈ environments x)
    (hunmade : (∀ text, lastErrorText msg exc ≠ .ok text) ∨ (¬spec.retryPolicy.maxRetries ≤ n ∧
      ∀ copy, delayedMessage spec msg implicit n delay exc env ≠ .ok copy) → Unmade spec n x)
    (hbroker : env.broker = .ok ()) (hbackend : env.backend = .ok ()) {s : Exec}
    (hs : s.processed = false) (hsettled : settlements s.log = []) (hcopied : copies s.log = []) :
    HandedOff spec msg implicit n x (scheduleRetry spec msg implicit n delay exc env s).2.log := by
  cases scheduleRetry_cases spec msg implicit n delay exc env s with
  | exhausted spent text told run =>
    rw [run]
    obtain ⟨h₁, h₂⟩ := settleState_report hs (.reject false) hbroker
    exact .rejected (by rw [h₁, hsettled]; rfl) (by rw [h₂, hcopied])
  | untold spent e untold run =>
    rw [run]
    exact .stuck (hunmade (.inl (by simp [untold]))) hsettled hcopied
  | unmade budget e unmade run =>
    rw [run]
    exact .stuck (hunmade (.inr ⟨budget, by simp [unmade]⟩)) hsettled hcopied
  | handedOff budget copy made backend run =>
    rw [run]
    have hs' : (s.logged (.enqueued copy)).processed = false := hs
    obtain ⟨h₁, h₂⟩ := settleState_report hs' .ack hbroker
    obtain ⟨d, text, time, -, -, ht, rfl⟩ := delayedMessage_ok_iff.mp made
    refine .scheduled budget ?_ time text env hmem (dispatchTime_bounded ht) ?_
    · rw [h₁]
      simpa [Exec.logged, settlements] using hsettled
    · rw [h₂]
      simpa [Exec.logged, copies] using hcopied
  | refused budget copy made e backend exception run =>
    rw [hbackend] at backend
    cases backend
  | cut budget copy made e backend run =>
    have hb := backend.1
    rw [hbackend] at hb
    cases hb

variable (spec n implicit) in
/-- A retry the handler asks for leaves what the hand-off leaves. -/
theorem controllerCall_retry_log (hn : getRetryCount msg.headers = some n) {c : HandlerCall}
    {delay : Seconds} (hd : c.call.delay = some delay) (hstack : c.onStack = true)
    (htimed : ¬spec.retryPolicy.maxRetries ≤ n → ∃ time, dispatchTime c.env.now delay = .ok time)
    (hbroker : c.env.broker = .ok ()) (hbackend : c.env.backend = .ok ()) (s : Exec) :
    (controllerCall spec msg implicit c s).2.log =
      (scheduleRetry spec msg implicit n (some delay) none c.env s).2.log := by
  have hread : readRetryCount msg = .ok n := by simp [readRetryCount, hn]
  have hok : ∃ b t, scheduleRetry spec msg implicit n (some delay) none c.env s = (.ok b, t) := by
    have hreply : settleReply s c.env.broker = .ok () := by simp [settleReply, hbroker, Cut]
    by_cases hmax : spec.retryPolicy.maxRetries ≤ n
    · rw [scheduleRetry_exhausted hmax rfl, hreply]
      exact ⟨_, _, rfl⟩
    · obtain ⟨copy, hmade⟩ := (asked_made_iff spec msg implicit n).mpr (htimed hmax)
      rw [scheduleRetry_handedOff hmax hmade hbackend, hreply]
      exact ⟨_, _, rfl⟩
  obtain ⟨b, t, hbt⟩ := hok
  have hoff : handOff spec msg implicit delay true c.env s = (.ok (), t) := by
    simp [handOff, Prog.bind_run, hread, hbt]
  rw [controllerCall_retry hd, (thenDispose_cases _ _ s).2.1, hstack, controllerScheduleRetry,
    Prog.catching_ok hoff, hbt]

/-- An exception that is retried leaves what its hand-off leaves, or nothing where it has
no text. -/
theorem raised_report (hn : getRetryCount msg.headers = some n)
    (ha : Attempt spec interceptors msg x) (hnack : spec.nackOnException = true)
    (hcalls : x.calls = []) {e : PyExc} (hx : x.ending = .raised e) (he : e.isException = true)
    (hv : ∀ text, e ≠ .payloadValidationError text) :
    (settlements (final spec interceptors msg x).log = settlements (scheduleRetry spec msg
        (workHeaders interceptors msg x) n none (some e) x.env (entered interceptors msg x)).2.log ∧
      copies (final spec interceptors msg x).log = copies (scheduleRetry spec msg
        (workHeaders interceptors msg x) n none (some e) x.env
          (entered interceptors msg x)).2.log) ∨
    (e.strFailure ≠ none ∧ settlements (final spec interceptors msg x).log = [] ∧
      copies (final spec interceptors msg x).log = []) := by
  obtain ⟨hset, hcop⟩ := final_report spec hn ha.enters
  obtain ⟨hset₀, hcop₀⟩ := entered_report interceptors msg x
  have ht : controllerCalls spec msg (workHeaders interceptors msg x) x.calls
      (entered interceptors msg x) = (.ok (), entered interceptors msg x) := by rw [hcalls]; rfl
  rw [handlerWithLadder_raised hx ht, exceptLadder_exception spec msg _ n x he hv] at hset hcop
  obtain hstate | ⟨htext, hstate⟩ := handleException_state spec msg _ n hnack ha.recorded ha.handler
    e (entered interceptors msg x)
  · rw [hstate] at hset hcop
    exact .inl ⟨hset, hcop⟩
  · rw [hstate] at hset hcop
    exact .inr ⟨htext, hset.trans hset₀, hcop.trans hcop₀⟩

/-- A retry the handler asks for leaves what the controller's call leaves. -/
theorem asked_report (hn : getRetryCount msg.headers = some n)
    (ha : Attempt spec interceptors msg x) {c : HandlerCall} (hcalls : x.calls = [c])
    (hx : x.ending = .raised (.messageDisposed .retry)) :
    settlements (final spec interceptors msg x).log = settlements (controllerCall spec msg
        (workHeaders interceptors msg x) c (entered interceptors msg x)).2.log ∧
      copies (final spec interceptors msg x).log = copies (controllerCall spec msg
        (workHeaders interceptors msg x) c (entered interceptors msg x)).2.log := by
  obtain ⟨hset, hcop⟩ := final_report spec hn ha.enters
  have ht : controllerCalls spec msg (workHeaders interceptors msg x) x.calls
      (entered interceptors msg x) = (.ok (), (controllerCall spec msg
        (workHeaders interceptors msg x) c (entered interceptors msg x)).2) := by
    rw [hcalls, controllerCalls_run]
    rfl
  rw [handlerWithLadder_raised hx ht] at hset hcop
  exact ⟨hset, hcop⟩

variable (spec msg implicit n) in
/-- A failed hand-off of an exception is one that makes no copy. -/
theorem failed_unmade {e : PyExc} (hx : x.ending = .raised e) (he : e.isException = true)
    (hv : ∀ text, e ≠ .payloadValidationError text) :
    (∀ text, lastErrorText msg (some e) ≠ .ok text) ∨ (¬spec.retryPolicy.maxRetries ≤ n ∧
      ∀ copy, delayedMessage spec msg implicit n none (some e) x.env ≠ .ok copy) →
        Unmade spec n x := by
  intro hunmade
  refine ⟨e, hx, he, hv, ?_⟩
  by_cases htext : e.strFailure = none
  · obtain ⟨text, ht⟩ : ∃ text, lastErrorText msg (some e) = .ok text := by
      simpa [lastErrorText_ok_iff] using htext
    obtain hno | ⟨hmax, hno⟩ := hunmade
    · exact absurd ht (hno text)
    · refine .inr ⟨not_le.mp hmax, ?_⟩
      rintro ⟨delay, time, hdelay, htime⟩
      exact hno _ (delayedMessage_ok_iff.mpr ⟨delay, text, time, hdelay, ht, htime, rfl⟩)
  · exact .inl htext

/-- A hand-off that was asked for in time makes its copy. -/
theorem asked_made {delay : Seconds} {env : SettleEnv}
    (htime : ¬spec.retryPolicy.maxRetries ≤ n → ∃ time, dispatchTime env.now delay = .ok time) :
    ¬((∀ text, lastErrorText msg none ≠ .ok text) ∨ (¬spec.retryPolicy.maxRetries ≤ n ∧
      ∀ copy, delayedMessage spec msg implicit n (some delay) none env ≠ .ok copy)) := by
  rintro (hno | ⟨hmax, hno⟩)
  · exact hno none rfl
  · obtain ⟨copy, hmade⟩ := (asked_made_iff spec msg implicit n).mpr (htime hmax)
    exact hno copy hmade

/-- What an attempt with a successful hand-off leaves: an acknowledged success, or one of
the ends of a hand-off. -/
theorem attempt_report (hn : getRetryCount msg.headers = some n)
    (ha : Attempt spec interceptors msg x) (ho : HandsOff spec msg x) :
    (x.ending = .returned ∧ settlements (final spec interceptors msg x).log = [.ack] ∧
      copies (final spec interceptors msg x).log = []) ∨
    (x.ending ≠ .returned ∧ HandedOff spec msg (workHeaders interceptors msg x) n x
      (final spec interceptors msg x).log) := by
  obtain ⟨hset₀, hcop₀⟩ := entered_report interceptors msg x
  have hp : (entered interceptors msg x).processed = false := rfl
  have hd : (entered interceptors msg x).disposition = none := rfl
  have hreply : settleReply (entered interceptors msg x) x.env.broker = .ok () := by
    simp [settleReply, ha.broker.1, Cut]
  have hquiet : x.calls = [] → controllerCalls spec msg (workHeaders interceptors msg x) x.calls
      (entered interceptors msg x) = (.ok (), entered interceptors msg x) := by
    intro hcalls
    rw [hcalls]
    rfl
  obtain ⟨hcalls, hx⟩ | ⟨hnack, hcalls, e, hx, he⟩ | ⟨c, hcalls, hc, hx⟩ := ha.kind
  · obtain ⟨hset, hcop⟩ := final_report spec hn ha.enters
    have hack : acknowledge x (entered interceptors msg x) =
        (.ok (), settleState .ack x.env.broker (entered interceptors msg x)) := by
      rw [acknowledge_run, hd, hreply]
      rfl
    rw [handlerWithLadder_returned hx (hquiet hcalls), Prog.tryExcept_ok hack] at hset hcop
    obtain ⟨h₁, h₂⟩ := settleState_report hp .ack ha.broker.1
    exact .inl ⟨hx, by rw [hset, h₁, hset₀]; rfl, by rw [hcop, h₂, hcop₀]⟩
  · refine .inr ⟨by simp [hx], ?_⟩
    by_cases hv : ∃ text, e = .payloadValidationError text
    · obtain ⟨text, rfl⟩ := hv
      obtain ⟨hset, hcop⟩ := final_report spec hn ha.enters
      have hrun : exceptLadder spec msg (workHeaders interceptors msg x) n x
          (.payloadValidationError text) (entered interceptors msg x) =
            (.ok (), settleState (.reject false) x.env.broker (entered interceptors msg x)) := by
        rw [exceptLadder, rejectUnparseable_run ha.recorded, hd, hreply]
        rfl
      rw [handlerWithLadder_raised hx (hquiet hcalls), hrun] at hset hcop
      obtain ⟨h₁, h₂⟩ := settleState_report hp (.reject false) ha.broker.1
      exact .rejected (by rw [hset, h₁, hset₀]; rfl) (by rw [hcop, h₂, hcop₀])
    · have hparsed : ∀ text, e ≠ .payloadValidationError text := fun text heq => hv ⟨text, heq⟩
      obtain ⟨hset, hcop⟩ | ⟨htext, hset, hcop⟩ := raised_report hn ha hnack hcalls hx he hparsed
      · have hreport := scheduleRetry_report spec msg (workHeaders interceptors msg x) n x
          none (some e) x.env (by simp [environments]) (failed_unmade spec msg _ n hx he hparsed)
          ha.broker.1 ho.worker hp hset₀ hcop₀
        exact HandedOff.of_log hreport hset hcop
      · exact .stuck ⟨e, hx, he, hparsed, .inl htext⟩ hset hcop
  · obtain ⟨hstack, hbackend, delay, hdelay, htimed⟩ := ho.calls c (by simp [hcalls])
    have hbroker := ha.broker.2 c (by simp [hcalls])
    have htime : ¬spec.retryPolicy.maxRetries ≤ n →
        ∃ time, dispatchTime c.env.now delay = .ok time :=
      fun hmax => htimed n hn (not_le.mp hmax)
    obtain ⟨hset, hcop⟩ := asked_report hn ha hcalls hx
    have hlog := controllerCall_retry_log spec (workHeaders interceptors msg x) n hn hdelay
      hstack htime hbroker hbackend (entered interceptors msg x)
    have hreport := scheduleRetry_report spec msg (workHeaders interceptors msg x) n x
      (some delay) none c.env (by simp [environments, hcalls])
      (fun h => absurd h (asked_made htime)) hbroker hbackend hp hset₀ hcop₀
    rw [← hlog] at hreport
    exact .inr ⟨by simp [hx], HandedOff.of_log hreport hset hcop⟩

/-- A handler that was called in an attempt has asked for a retry. -/
theorem AttemptKind.asked (hk : AttemptKind spec x) {c : HandlerCall} (hcalls : x.calls = [c]) :
    isRetry c.call = true ∧ x.ending = .raised (.messageDisposed .retry) := by
  cases hk with
  | returns calls ending => simp [calls] at hcalls
  | raises nack calls e ending exception => simp [calls] at hcalls
  | asks c' calls retry ending =>
    rw [hcalls, List.singleton_inj] at calls
    exact ⟨calls ▸ retry, ending⟩

/-- A retry that is asked for within the budget leaves one copy and an acknowledgement. -/
theorem asked_copied (hn : getRetryCount msg.headers = some n)
    (ha : Attempt spec interceptors msg x) {c : HandlerCall} (hcalls : x.calls = [c])
    (hbudget : n < spec.retryPolicy.maxRetries) (hstack : c.onStack = true)
    (hbackend : c.env.backend = .ok ()) {delay : Seconds} (hdelay : c.call.delay = some delay)
    {time : Int} (htime : dispatchTime c.env.now delay = .ok time) :
    settlements (final spec interceptors msg x).log = [.ack] ∧
      copies (final spec interceptors msg x).log =
        [retryCopy spec msg (workHeaders interceptors msg x) n time none c.env] := by
  obtain ⟨hset₀, hcop₀⟩ := entered_report interceptors msg x
  obtain ⟨-, hx⟩ := ha.kind.asked hcalls
  have hbroker := ha.broker.2 c (by simp [hcalls])
  have hmade : delayedMessage spec msg (workHeaders interceptors msg x) n (some delay) none c.env =
      .ok (retryCopy spec msg (workHeaders interceptors msg x) n time none c.env) :=
    delayedMessage_ok_iff.mpr ⟨delay, none, time, rfl, rfl, htime, rfl⟩
  obtain ⟨hset, hcop⟩ := asked_report hn ha hcalls hx
  rw [controllerCall_retry_log spec _ n hn hdelay hstack (fun _ => ⟨time, htime⟩) hbroker hbackend,
    scheduleRetry_handedOff (not_le.mpr hbudget) hmade hbackend] at hset hcop
  obtain ⟨h₁, h₂⟩ := settleState_report (s := (entered interceptors msg x).logged
    (.enqueued (retryCopy spec msg (workHeaders interceptors msg x) n time none c.env))) rfl .ack
    hbroker
  rw [hset, hcop, h₁, h₂]
  constructor
  · simpa [Exec.logged, settlements] using hset₀
  · simpa [Exec.logged, copies] using hcop₀

/-- The ways a retry within its budget is not handed off. -/
inductive HandOffFails (spec : HandlerSpec) (n : Int) (x : Execution) : Prop where
  /-- asked for from a task the handler started, or for a time that is no finite float -/
  | fallsBack (c : HandlerCall) (calls : x.calls = [c]) (delay : Seconds)
      (asked : c.call.delay = some delay) (falls : FallsBack spec n c delay)
  | askedRefused (c : HandlerCall) (calls : x.calls = [c]) (delay : Seconds)
      (asked : c.call.delay = some delay) (budget : ¬spec.retryPolicy.maxRetries ≤ n) (e : PyExc)
      (backend : c.env.backend = .error e) (exception : e.isException = true)
  | raisedRefused (e : PyExc) (ending : x.ending = .raised e) (calls : x.calls = [])
      (parsed : ∀ text, e ≠ .payloadValidationError text) (told : e.strFailure = none)
      (budget : ¬spec.retryPolicy.maxRetries ≤ n) (backoff : Backoff spec n x.env) (e' : PyExc)
      (backend : x.env.backend = .error e') (exception : e'.isException = true)

variable (spec n implicit) in
/-- A retry that cannot be scheduled puts the delivery back. -/
theorem controllerCall_requeued_log (hn : getRetryCount msg.headers = some n) {c : HandlerCall}
    {delay : Seconds} (hd : c.call.delay = some delay) (hbroker : c.env.broker = .ok ())
    (hfails : FallsBack spec n c delay ∨ (¬spec.retryPolicy.maxRetries ≤ n ∧
      ∃ e, c.env.backend = .error e ∧ e.isException = true)) (s : Exec) :
    (controllerCall spec msg implicit c s).2.log =
      (settleState (.reject true) c.env.broker s).log := by
  rw [controllerCall_retry hd, (thenDispose_cases _ _ s).2.1]
  by_cases hf : FallsBack spec n c delay
  · rw [(controllerScheduleRetry_fallsBack implicit hn hf s).1]
  · obtain ⟨hmax, e, hb, he⟩ := hfails.resolve_left hf
    obtain ⟨hstack, htimed⟩ : c.onStack = true ∧ (¬spec.retryPolicy.maxRetries ≤ n →
        ∀ e, dispatchTime c.env.now delay ≠ .error e) := by
      simpa [FallsBack] using hf
    obtain ⟨time, ht⟩ : ∃ time, dispatchTime c.env.now delay = .ok time := by
      cases ht : dispatchTime c.env.now delay with
      | ok time => exact ⟨time, rfl⟩
      | error e' => exact absurd ht (htimed hmax e')
    obtain ⟨copy, hmade⟩ := (asked_made_iff spec msg implicit n).mpr ⟨time, ht⟩
    have hread : readRetryCount msg = .ok n := by simp [readRetryCount, hn]
    have hreply : settleReply s c.env.broker = .ok () := by simp [settleReply, hbroker, Cut]
    have hschedule := scheduleRetry_refused hmax hmade hb he s
    rw [hreply] at hschedule
    have hoff : handOff spec msg implicit delay true c.env s =
        (.ok (), settleState (.reject true) c.env.broker s) := by
      simp [handOff, Prog.bind_run, hread, hschedule, Except.map]
    rw [hstack, controllerScheduleRetry, Prog.catching_ok hoff]

/-- An attempt without calls is an `Exception` under `nack_on_exception`. -/
theorem AttemptKind.raised (hk : AttemptKind spec x) (hcalls : x.calls = []) {e : PyExc}
    (hx : x.ending = .raised e) : spec.nackOnException = true ∧ e.isException = true := by
  cases hk with
  | returns calls ending => simp [ending] at hx
  | raises nack calls e' ending exception =>
    rw [hx, Ending.raised.injEq] at ending
    exact ⟨nack, ending ▸ exception⟩
  | asks c calls retry ending => simp [calls] at hcalls

/-- An attempt whose retry is not handed off requeues its delivery and leaves no copy. -/
theorem requeued_report (hn : getRetryCount msg.headers = some n)
    (ha : Attempt spec interceptors msg x) (hf : HandOffFails spec n x) :
    settlements (final spec interceptors msg x).log = [.reject true] ∧
      copies (final spec interceptors msg x).log = [] := by
  obtain ⟨hset₀, hcop₀⟩ := entered_report interceptors msg x
  have hp : (entered interceptors msg x).processed = false := rfl
  -- both entry points end in one requeue of the delivery
  have hasked : ∀ c delay, x.calls = [c] → c.call.delay = some delay →
      (FallsBack spec n c delay ∨ (¬spec.retryPolicy.maxRetries ≤ n ∧
        ∃ e, c.env.backend = .error e ∧ e.isException = true)) →
      settlements (final spec interceptors msg x).log = [.reject true] ∧
        copies (final spec interceptors msg x).log = [] := by
    intro c delay hcalls hd hfails
    obtain ⟨-, hx⟩ := ha.kind.asked hcalls
    have hbroker := ha.broker.2 c (by simp [hcalls])
    obtain ⟨hset, hcop⟩ := asked_report hn ha hcalls hx
    rw [controllerCall_requeued_log spec _ n hn hd hbroker hfails] at hset hcop
    obtain ⟨h₁, h₂⟩ := settleState_report hp (.reject true) hbroker
    exact ⟨by rw [hset, h₁, hset₀]; rfl, by rw [hcop, h₂, hcop₀]⟩
  cases hf with
  | fallsBack c calls delay asked falls => exact hasked c delay calls asked (.inl falls)
  | askedRefused c calls delay asked budget e backend exception =>
    exact hasked c delay calls asked (.inr ⟨budget, e, backend, exception⟩)
  | raisedRefused e ending calls parsed told budget backoff e' backend exception =>
    obtain ⟨hnack, he⟩ := ha.kind.raised calls ending
    obtain ⟨hset, hcop⟩ | ⟨htext, -⟩ := raised_report hn ha hnack calls ending he parsed
    · obtain ⟨text, ht⟩ : ∃ text, lastErrorText msg (some e) = .ok text := by
        simpa [lastErrorText_ok_iff] using told
      obtain ⟨delay, time, hdelay, htime⟩ := backoff
      have hmade : delayedMessage spec msg (workHeaders interceptors msg x) n none (some e) x.env =
          .ok (retryCopy spec msg (workHeaders interceptors msg x) n time text x.env) :=
        delayedMessage_ok_iff.mpr ⟨delay, text, time, hdelay, ht, htime, rfl⟩
      rw [scheduleRetry_refused budget hmade backend exception] at hset hcop
      obtain ⟨h₁, h₂⟩ := settleState_report hp (.reject true) ha.broker.1
      exact ⟨by rw [hset, h₁, hset₀]; rfl, by rw [hcop, h₂, hcop₀]⟩
    · exact absurd told htext

end Reports

end RetryAttempts

import Jararaca.WorkerRules

/-!
# How the parts of an execution end

One lemma for each part of the worker that settles: what it returns or raises, what it
leaves of the delivery, and whether it asked anything of the broker or of the broker
backend. The conditions are on the answers from outside and on the state before.
-/
namespace WorkerOutcomes

open Programs Messages UnitOfWork Interceptors Worker WorkerRules

/-- Between two states nothing was asked of the broker or of the broker backend. -/
def Untouched (s t : Exec) : Prop := ∃ rest, t.log = s.log ++ rest ∧ ∀ e ∈ rest, e.touches = false

/-- Between two states something was asked of the broker or of the broker backend. -/
def Touched (s t : Exec) : Prop := ∃ rest, t.log = s.log ++ rest ∧ ∃ e ∈ rest, e.touches = true

def extendsLog : Prog.Frame Exec where
  rel s t := ∃ rest, t.log = s.log ++ rest
  refl s := ⟨[], by simp⟩
  trans := by
    rintro s t u ⟨a, ha⟩ ⟨b, hb⟩
    exact ⟨a ++ b, by rw [hb, ha, List.append_assoc]⟩

theorem extendsLog_respected : Respected extendsLog where
  settle op r s := by
    by_cases hp : s.processed = true
    · rw [settle_refused hp]
      exact ⟨[.attempt op], rfl⟩
    · have hp' : s.processed = false := by simpa using hp
      cases r with
      | ok u =>
        rw [settle_applied hp']
        exact ⟨[.attempt op, .settled op], by simp [Exec.logged]⟩
      | error e =>
        rw [settle_failed hp']
        exact ⟨[.attempt op], rfl⟩
  enqueue m r s := by
    cases r with
    | ok u => exact ⟨[.enqueued m], rfl⟩
    | error e => exact extendsLog.refl s
  disposition d s := extendsLog.refl s

theorem extendsLog_record (events : List (UowEvent Effect)) (s : Exec) :
    extendsLog.rel s (Traced.record events s) := ⟨events.map .uow, rfl⟩

/-- A delivery that is settled stays settled. -/
theorem processed_respected : Respected (Prog.Frame.invariant fun s => s.processed = true) where
  settle op r := fun s hs => by
    rw [settle_refused hs]
    exact hs
  enqueue m r := fun s hs => by
    cases r <;> simpa [enqueueDelayedMessage, Prog.bind_run, Exec.logged] using hs
  disposition d := fun s hs => hs

/-- What was touched is not untouched. -/
theorem Touched.not_untouched {s t : Exec} (h : Touched s t) : ¬Untouched s t := by
  obtain ⟨rest, hr, e, he, ht⟩ := h
  rintro ⟨rest', hr', hall⟩
  have heq : rest = rest' := by simpa [hr] using hr'
  have hfalse := hall e (heq ▸ he)
  simp [ht] at hfalse

/-- It stays touched. -/
theorem Touched.extended {s t u : Exec} (h : Touched s t) (hu : extendsLog.rel t u) :
    Touched s u := by
  obtain ⟨rest, hr, e, he, ht⟩ := h
  obtain ⟨more, hm⟩ := hu
  exact ⟨rest ++ more, by simp [hm, hr], e, by simp [he], ht⟩

theorem Touched.of_logged {s t : Exec} {e : Event} (he : e.touches = true)
    (ht : extendsLog.rel (s.logged e) t) : Touched s t := by
  have hone : Touched s (s.logged e) := ⟨[e], rfl, e, by simp, he⟩
  exact hone.extended ht

/-- The reply cuts what awaits it, by this exception. -/
def CutBy (r : Reply) (e : PyExc) : Prop := r = .error e ∧ e.isException = false

theorem cut_iff {r : Reply} : Cut r ↔ ∃ e, CutBy r e := by
  cases r with
  | ok u => simp [Cut, CutBy]
  | error e => simp [Cut, CutBy]

/-- A settlement is cut by one exception. -/
theorem CutBy.unique {r : Reply} {e e' : PyExc} (h : CutBy r e) (h' : CutBy r e') : e = e' := by
  have heq := h.1.symm.trans h'.1
  cases heq
  rfl

/-- What a logged settlement returns: only a cut gets through. -/
def settleReply (s : Exec) (r : Reply) : Reply := if s.processed = false ∧ Cut r then r else .ok ()

/-- What a logged settlement leaves behind. -/
def settleState (op : Settlement) (r : Reply) (s : Exec) : Exec :=
  if s.processed = false ∧ r = .ok () then
    { (s.logged (.attempt op)).logged (.settled op) with processed := true }
  else s.logged (.attempt op)

/-- The delivery is settled after a settlement that was answered so. -/
def Answered (s : Exec) (r : Reply) : Prop := s.processed = true ∨ r = .ok ()

/-- A stretch of the worker that ends with an attempt to settle, answered by `r`. -/
structure Settled (s : Exec) (r : Reply) (t : Exec) : Prop where
  processed : t.processed = true ↔ Answered s r
  disposition : t.disposition = s.disposition
  touched : Touched s t

section Settle

variable (op : Settlement) (r : Reply) (s : Exec)

/-- Under `logging` a settlement is what its reply says. -/
theorem logging_settle : logging (settle op r) s = (settleReply s r, settleState op r s) := by
  unfold settleReply settleState
  by_cases hp : s.processed = true
  · rw [logging_exception (settle_refused hp op _) rfl]
    simp [hp]
  · have hp' : s.processed = false := by simpa using hp
    cases r with
    | ok u =>
      rw [logging_ok (settle_applied hp' op)]
      simp [hp', Cut]
    | error e =>
      cases he : e.isException with
      | true =>
        rw [logging_exception (settle_failed hp' op e) he]
        simp [Cut, he]
      | false =>
        rw [logging_cut (settle_failed hp' op e) he]
        simp [hp', Cut, he]

theorem settleState_settled : Settled s r (settleState op r s) := by
  unfold settleState
  split
  · next h =>
    exact ⟨by simp [Answered, h.2], rfl,
      Touched.of_logged (e := .attempt op) rfl ⟨[.settled op], by simp [Exec.logged]⟩⟩
  · next h =>
    refine ⟨?_, rfl, Touched.of_logged rfl (extendsLog.refl _)⟩
    cases hp : s.processed with
    | true => simp [Exec.logged, Answered, hp]
    | false => simpa [Exec.logged, Answered, hp] using h

theorem settleReply_cases : (settleReply s r = .ok () ∧ ¬(s.processed = false ∧ Cut r)) ∨
    (∃ e, settleReply s r = .error e ∧ s.processed = false ∧ CutBy r e) := by
  unfold settleReply
  split
  · next h =>
    obtain ⟨e, he⟩ := cut_iff.mp h.2
    exact .inr ⟨e, he.1, h.1, he⟩
  · next h => exact .inl ⟨rfl, h⟩

end Settle

theorem handedOff_settled (copy : DelayedMessageData) (r : Reply) (s : Exec) :
    Settled s r (settleState .ack r (s.logged (.enqueued copy))) := by
  have hone : Touched s (s.logged (.enqueued copy)) := Touched.of_logged rfl (extendsLog.refl _)
  have h := settleState_settled .ack r (s.logged (.enqueued copy))
  obtain ⟨rest, hrest, -⟩ := h.touched
  exact ⟨h.processed, h.disposition, hone.extended ⟨rest, hrest⟩⟩

section Retry

variable {spec : HandlerSpec} {msg : Delivery} {implicit : Headers} {n : Int}
  {delay : Option Seconds} {exc : Option PyExc} {env : SettleEnv}

theorem settle_then_return (op : Settlement) (r : Reply) (b : Bool) (s : Exec) :
    (do
      logging (settle op r)
      return b : Run Bool) s = ((settleReply s r).map fun _ => b, settleState op r s) := by
  rw [Prog.bind_run, logging_settle]
  cases settleReply s r <;> rfl

/-- What `compute_retry_delay` raises is an `Exception`. -/
theorem computeRetryDelay_exception {policy : RetryPolicy} {draw : ℚ} {e : PyExc}
    (h : computeRetryDelay policy n draw = .error e) : e.isException = true := by
  have hpow : ∀ x m e', floatPow x m = .error e' → e'.isException = true := by
    intro x m e' he
    unfold floatPow at he
    split at he
    · cases he
      rfl
    · split at he
      · cases he
        rfl
      · cases he
  unfold computeRetryDelay at h
  cases hp : floatPow policy.backoffFactor n with
  | error e' =>
    rw [hp] at h
    cases h
    exact hpow _ _ _ hp
  | ok power =>
    rw [hp] at h
    simp only [bind, Except.bind] at h
    split at h
    · split at h
      · cases h
      · split at h <;> cases h
    · split at h <;> cases h

theorem lastErrorText_ok_iff :
    (∃ text, lastErrorText msg exc = .ok text) ↔ ∀ e, exc = some e → e.strFailure = none := by
  cases exc with
  | none => simp [lastErrorText]
  | some e =>
    rw [lastErrorText, shown]
    simp only [Option.some.injEq, forall_eq', ← PyExc.str_ok_iff msg.repr]
    cases e.str msg.repr <;> simp [Except.map]

theorem lastErrorText_exception {e : PyExc} (h : lastErrorText msg exc = .error e) :
    e.isException = true := by
  cases exc with
  | none => cases h
  | some e' =>
    rw [lastErrorText, shown] at h
    cases hs : e'.str msg.repr with
    | ok text =>
      rw [hs] at h
      cases h
    | error f =>
      rw [hs] at h
      cases h
      exact PyExc.strFailure_exception ((PyExc.str_error_iff msg.repr).mp hs)

/-- A copy is made where the delay, the text and the clock allow it. -/
theorem delayedMessage_ok_iff {copy : DelayedMessageData} :
    delayedMessage spec msg implicit n delay exc env = .ok copy ↔
      ∃ d text time, retryDelay spec n delay env = .ok d ∧ lastErrorText msg exc = .ok text ∧
        dispatchTime env.now d = .ok time ∧ copy = retryCopy spec msg implicit n time text env := by
  unfold delayedMessage
  cases retryDelay spec n delay env with
  | error e => simp [bind, Except.bind]
  | ok d =>
    cases lastErrorText msg exc with
    | error e => simp [bind, Except.bind]
    | ok text =>
      cases ht : dispatchTime env.now d with
      | error e => simp [bind, Except.bind, ht]
      | ok time => simp [bind, Except.bind, ht, pure, Except.pure, eq_comm]

/-- Nothing else than an `Exception` is raised in its place. -/
theorem delayedMessage_exception {e : PyExc}
    (h : delayedMessage spec msg implicit n delay exc env = .error e) : e.isException = true := by
  unfold delayedMessage at h
  cases hd : retryDelay spec n delay env with
  | error e' =>
    rw [hd] at h
    cases h
    cases delay with
    | some d => cases hd
    | none => exact computeRetryDelay_exception hd
  | ok d =>
    cases hl : lastErrorText msg exc with
    | error e' =>
      rw [hd, hl] at h
      cases h
      exact lastErrorText_exception hl
    | ok text =>
      cases ht : dispatchTime env.now d with
      | error e' =>
        rw [hd, hl] at h
        simp only [bind, Except.bind, ht] at h
        cases h
        exact dispatchTime_exception ht
      | ok time =>
        rw [hd, hl] at h
        simp [bind, Except.bind, ht, pure, Except.pure] at h

theorem scheduleRetry_exhausted (h : spec.retryPolicy.maxRetries ≤ n) {text : Option String}
    (ht : lastErrorText msg exc = .ok text) (s : Exec) :
    scheduleRetry spec msg implicit n delay exc env s =
      ((settleReply s env.broker).map fun _ => false,
        settleState (.reject false) env.broker s) := by
  rw [scheduleRetry, if_pos h, ht]
  exact settle_then_return _ _ false s

/-- The exception has no text, and the budget is spent. -/
theorem scheduleRetry_untold (h : spec.retryPolicy.maxRetries ≤ n) {e : PyExc}
    (ht : lastErrorText msg exc = .error e) (s : Exec) :
    scheduleRetry spec msg implicit n delay exc env s = (.error e, s) := by
  rw [scheduleRetry, if_pos h, ht]
  rfl

/-- No copy could be made: nothing was asked of anybody. -/
theorem scheduleRetry_unmade (h : ¬spec.retryPolicy.maxRetries ≤ n) {e : PyExc}
    (hd : delayedMessage spec msg implicit n delay exc env = .error e) (s : Exec) :
    scheduleRetry spec msg implicit n delay exc env s = (.error e, s) := by
  rw [scheduleRetry, if_neg h, hd]
  rfl

/-- The copy is handed off and the original is acknowledged. -/
theorem scheduleRetry_handedOff (h : ¬spec.retryPolicy.maxRetries ≤ n) {copy : DelayedMessageData}
    (hd : delayedMessage spec msg implicit n delay exc env = .ok copy) (hb : env.backend = .ok ())
    (s : Exec) :
    scheduleRetry spec msg implicit n delay exc env s =
      ((settleReply s env.broker).map fun _ => true,
        settleState .ack env.broker (s.logged (.enqueued copy))) := by
  have hmade : (Prog.ofExcept (delayedMessage spec msg implicit n delay exc env) : Run _) s =
      (.ok copy, s) := by rw [Prog.ofExcept_run, hd]
  rw [scheduleRetry, if_neg h, Prog.bind_ok hmade]
  have henq : (do
      enqueueDelayedMessage copy env.backend
      return true : Run Bool) s = (.ok true, s.logged (.enqueued copy)) := by
    simp [hb, enqueueDelayedMessage, Prog.bind_run]
  rw [Prog.bind_ok (Prog.catching_ok henq _)]
  exact settle_then_return _ _ true _

/-- The backend refuses: the original goes back to its queue. -/
theorem scheduleRetry_refused (h : ¬spec.retryPolicy.maxRetries ≤ n) {copy : DelayedMessageData}
    (hd : delayedMessage spec msg implicit n delay exc env = .ok copy) {e : PyExc}
    (hb : env.backend = .error e) (he : e.isException = true) (s : Exec) :
    scheduleRetry spec msg implicit n delay exc env s =
      ((settleReply s env.broker).map fun _ => false, settleState (.reject true) env.broker s) := by
  have hmade : (Prog.ofExcept (delayedMessage spec msg implicit n delay exc env) : Run _) s =
      (.ok copy, s) := by rw [Prog.ofExcept_run, hd]
  rw [scheduleRetry, if_neg h, Prog.bind_ok hmade]
  have henq : (do
      enqueueDelayedMessage copy env.backend
      return true : Run Bool) s = (.error e, s) := by
    simp [hb, enqueueDelayedMessage, Prog.bind_run]
  rw [Prog.bind_run, Prog.catching_caught henq he, settle_then_return]
  cases settleReply s env.broker <;> rfl

/-- The hand-off is cut: nothing was settled and the cut goes on. -/
theorem scheduleRetry_cut (h : ¬spec.retryPolicy.maxRetries ≤ n) {copy : DelayedMessageData}
    (hd : delayedMessage spec msg implicit n delay exc env = .ok copy) {e : PyExc}
    (hb : CutBy env.backend e) (s : Exec) :
    scheduleRetry spec msg implicit n delay exc env s = (.error e, s) := by
  have hmade : (Prog.ofExcept (delayedMessage spec msg implicit n delay exc env) : Run _) s =
      (.ok copy, s) := by rw [Prog.ofExcept_run, hd]
  rw [scheduleRetry, if_neg h, Prog.bind_ok hmade]
  simp [hb.1, enqueueDelayedMessage, Prog.catching, Prog.tryExcept, Prog.bind_run, hb.2]

/-- The ways a retry hand-off ends. -/
inductive RetryEnding (spec : HandlerSpec) (msg : Delivery) (implicit : Headers) (n : Int)
    (delay : Option Seconds) (exc : Option PyExc) (env : SettleEnv) (s : Exec)
    (ended : Except PyExc Bool × Exec) : Prop where
  | exhausted (spent : spec.retryPolicy.maxRetries ≤ n) (text : Option String)
      (told : lastErrorText msg exc = .ok text)
      (run : ended = ((settleReply s env.broker).map fun _ => false,
        settleState (.reject false) env.broker s))
  | untold (spent : spec.retryPolicy.maxRetries ≤ n) (e : PyExc)
      (untold : lastErrorText msg exc = .error e) (run : ended = (.error e, s))
  | unmade (budget : ¬spec.retryPolicy.maxRetries ≤ n) (e : PyExc)
      (unmade : delayedMessage spec msg implicit n delay exc env = .error e)
      (run : ended = (.error e, s))
  | handedOff (budget : ¬spec.retryPolicy.maxRetries ≤ n) (copy : DelayedMessageData)
      (made : delayedMessage spec msg implicit n delay exc env = .ok copy)
      (backend : env.backend = .ok ())
      (run : ended = ((settleReply s env.broker).map fun _ => true,
        settleState .ack env.broker (s.logged (.enqueued copy))))
  | refused (budget : ¬spec.retryPolicy.maxRetries ≤ n) (copy : DelayedMessageData)
      (made : delayedMessage spec msg implicit n delay exc env = .ok copy) (e : PyExc)
      (backend : env.backend = .error e) (exception : e.isException = true)
      (run : ended = ((settleReply s env.broker).map fun _ => false,
        settleState (.reject true) env.broker s))
  | cut (budget : ¬spec.retryPolicy.maxRetries ≤ n) (copy : DelayedMessageData)
      (made : delayedMessage spec msg implicit n delay exc env = .ok copy) (e : PyExc)
      (backend : CutBy env.backend e) (run : ended = (.error e, s))

variable (spec msg implicit n delay exc env) in
/-- How `_schedule_retry` can end. -/
theorem scheduleRetry_cases (s : Exec) : RetryEnding spec msg implicit n delay exc env s
    (scheduleRetry spec msg implicit n delay exc env s) := by
  by_cases hmax : spec.retryPolicy.maxRetries ≤ n
  · cases ht : lastErrorText msg exc with
    | error e => exact .untold hmax e ht (scheduleRetry_untold hmax ht s)
    | ok text => exact .exhausted hmax text ht (scheduleRetry_exhausted hmax ht s)
  · cases hd : delayedMessage spec msg implicit n delay exc env with
    | error e => exact .unmade hmax e hd (scheduleRetry_unmade hmax hd s)
    | ok copy =>
      cases hb : env.backend with
      | ok u => exact .handedOff hmax copy hd hb (scheduleRetry_handedOff hmax hd hb s)
      | error e =>
        cases he : e.isException with
        | true => exact .refused hmax copy hd e hb he (scheduleRetry_refused hmax hd hb he s)
        | false => exact .cut hmax copy hd e ⟨hb, he⟩ (scheduleRetry_cut hmax hd ⟨hb, he⟩ s)

variable (spec msg implicit n) in
/-- A retry that was asked for without an exception is told and timed by its delay. -/
theorem asked_made_iff {d : Seconds} :
    (∃ copy, delayedMessage spec msg implicit n (some d) none env = .ok copy) ↔
      ∃ time, dispatchTime env.now d = .ok time := by
  simp only [delayedMessage_ok_iff]
  constructor
  · rintro ⟨copy, d', text, time, hd, -, ht, -⟩
    cases hd
    exact ⟨time, ht⟩
  · rintro ⟨time, ht⟩
    exact ⟨_, d, none, time, rfl, rfl, ht, rfl⟩

end Retry

/-- A retry that raises inside `_schedule_retry`, which then requeues the delivery: it is
asked for off the handler's stack, or for a time that is no finite float. -/
def FallsBack (spec : HandlerSpec) (n : Int) (c : HandlerCall) (delay : Seconds) : Prop :=
  c.onStack = false ∨
    (¬spec.retryPolicy.maxRetries ≤ n ∧ ∃ e, dispatchTime c.env.now delay = .error e)

/-- A retry reaches the broker or the broker backend unless its hand-off is cut. -/
def RetryReaches (spec : HandlerSpec) (n : Int) (c : HandlerCall) (delay : Seconds) : Prop :=
  FallsBack spec n c delay ∨ spec.retryPolicy.maxRetries ≤ n ∨ ¬Cut c.env.backend

/-- A controller call that reaches the broker or the broker backend: every ack, nack and
reject, and a retry whose delay is a float unless its hand-off to the backend is cut. -/
def Reaches (spec : HandlerSpec) (n : Int) (c : HandlerCall) : Prop :=
  match c.call with
  | .ack | .nack | .reject => True
  | .retry _ | .retryLater _ => ∃ delay, c.call.delay = some delay ∧ RetryReaches spec n c delay

/-- A retry whose last attempt to settle is not cut. -/
def RetryDisposes (spec : HandlerSpec) (n : Int) (c : HandlerCall) (delay : Seconds) : Prop :=
  (FallsBack spec n c delay ∧
    (c.env.broker = .ok () ∨ c.env.broker = .error .messageProcessError)) ∨
  (¬FallsBack spec n c delay ∧
    (spec.retryPolicy.maxRetries ≤ n ∨ ¬Cut c.env.backend) ∧ ¬Cut c.env.broker)

/-- A controller call that leaves a disposition on an open delivery: an ack, nack or
reject the broker accepts, and a retry whose last attempt to settle is not cut. -/
def Disposes (spec : HandlerSpec) (n : Int) (c : HandlerCall) : Prop :=
  match c.call with
  | .ack | .nack | .reject => c.env.broker = .ok ()
  | .retry _ | .retryLater _ => ∃ delay, c.call.delay = some delay ∧ RetryDisposes spec n c delay

section Calls

variable {spec : HandlerSpec} {msg : Delivery} {implicit : Headers} {n : Int}

variable (implicit) in
/-- What makes a retry fall back is raised before anything was asked. -/
theorem handOff_raises (hn : getRetryCount msg.headers = some n) {c : HandlerCall} {delay : Seconds}
    (h : FallsBack spec n c delay) (s : Exec) :
    ∃ e, e.isException = true ∧
      handOff spec msg implicit delay c.onStack c.env s = (.error e, s) := by
  cases hstack : c.onStack with
  | false => exact ⟨_, rfl, rfl⟩
  | true =>
    obtain hoff | ⟨hmax, e, he⟩ := h
    · rw [hstack] at hoff
      cases hoff
    · have hread : readRetryCount msg = .ok n := by simp [readRetryCount, hn]
      have hmade : delayedMessage spec msg implicit n (some delay) none c.env = .error e := by
        simp [delayedMessage, retryDelay, lastErrorText, bind, Except.bind, he]
      refine ⟨e, dispatchTime_exception he, ?_⟩
      simp [handOff, Prog.bind_run, hread, scheduleRetry_unmade hmax hmade s]

variable (implicit) in
/-- The fallback of the controller. -/
theorem controllerScheduleRetry_fallsBack (hn : getRetryCount msg.headers = some n)
    {c : HandlerCall} {delay : Seconds} (h : FallsBack spec n c delay) (s : Exec) :
    (controllerScheduleRetry spec msg implicit delay c.onStack c.env s).2 =
      settleState (.reject true) c.env.broker s ∧
    ((controllerScheduleRetry spec msg implicit delay c.onStack c.env s).1 = .ok () ↔
      s.processed = true ∨ c.env.broker = .ok () ∨
        c.env.broker = .error .messageProcessError) := by
  obtain ⟨e, he, hoff⟩ := handOff_raises implicit hn h s
  rw [controllerScheduleRetry, Prog.catching_caught hoff he]
  by_cases hp : s.processed = true
  · rw [Prog.catching_caught (settle_refused hp _ _) rfl]
    simp [settleState, hp]
  · have hp' : s.processed = false := by simpa using hp
    cases hr : c.env.broker with
    | ok u =>
      rw [Prog.catching_ok (settle_applied hp' _)]
      simp [settleState, hp']
    | error e =>
      by_cases he : e = .messageProcessError
      · rw [he, Prog.catching_caught (settle_failed hp' _ _) rfl]
        simp [settleState]
      · rw [Prog.catching_passed (settle_failed hp' _ _) (by simpa using he)]
        simp [settleState, hp', he]

variable (implicit) in
/-- The hand-off of the controller: it gets as far as a settlement, or it is cut and
leaves no trace. -/
theorem controllerScheduleRetry_proceeds (hn : getRetryCount msg.headers = some n)
    {c : HandlerCall} {delay : Seconds} (h : ¬FallsBack spec n c delay) (s : Exec) :
    ((spec.retryPolicy.maxRetries ≤ n ∨ ¬Cut c.env.backend) ∧
      Settled s c.env.broker
        (controllerScheduleRetry spec msg implicit delay c.onStack c.env s).2 ∧
      ((controllerScheduleRetry spec msg implicit delay c.onStack c.env s).1 = .ok () ↔
        s.processed = true ∨ ¬Cut c.env.broker)) ∨
    (¬(spec.retryPolicy.maxRetries ≤ n ∨ ¬Cut c.env.backend) ∧
      ∃ e, controllerScheduleRetry spec msg implicit delay c.onStack c.env s = (.error e, s)) := by
  obtain ⟨hstack, htimed⟩ : c.onStack = true ∧ (¬spec.retryPolicy.maxRetries ≤ n →
      ∀ e, dispatchTime c.env.now delay ≠ .error e) := by
    simpa [FallsBack] using h
  rw [hstack]
  have hread : readRetryCount msg = .ok n := by simp [readRetryCount, hn]
  have hoff : ∀ r t, scheduleRetry spec msg implicit n (some delay) none c.env s = (r, t) →
      handOff spec msg implicit delay true c.env s = (r.map fun _ => (), t) := by
    intro r t hr
    cases r <;> simp [handOff, Prog.bind_run, hread, hr, Except.map]
  -- a settlement that was reached: the reply is cut or quiet, never an `Exception`
  have hsettled : ∀ b t, scheduleRetry spec msg implicit n (some delay) none c.env s =
        ((settleReply s c.env.broker).map fun _ => b, t) → Settled s c.env.broker t →
      Settled s c.env.broker (controllerScheduleRetry spec msg implicit delay true c.env s).2 ∧
      ((controllerScheduleRetry spec msg implicit delay true c.env s).1 = .ok () ↔
        s.processed = true ∨ ¬Cut c.env.broker) := by
    intro b t hrun ht
    obtain ⟨hreply, hcut⟩ | ⟨e, hreply, hp, he⟩ := settleReply_cases c.env.broker s
    · rw [hreply] at hrun
      rw [controllerScheduleRetry, Prog.catching_ok (hoff _ _ hrun)]
      refine ⟨ht, iff_of_true rfl ?_⟩
      by_contra hcon
      exact hcut (by simpa using hcon)
    · rw [hreply] at hrun
      rw [controllerScheduleRetry, Prog.catching_passed (hoff _ _ hrun) he.2]
      exact ⟨ht, by simp [hp, cut_iff.mpr ⟨e, he⟩]⟩
  cases scheduleRetry_cases spec msg implicit n (some delay) none c.env s with
  | exhausted spent text told run =>
    exact .inl ⟨.inl spent, hsettled _ _ run (settleState_settled _ _ s)⟩
  | untold spent e untold run => cases untold
  | unmade budget e unmade run =>
    obtain ⟨time, ht⟩ : ∃ time, dispatchTime c.env.now delay = .ok time := by
      cases ht : dispatchTime c.env.now delay with
      | ok time => exact ⟨time, rfl⟩
      | error e' => exact absurd ht (htimed budget e')
    obtain ⟨copy, hmade⟩ := (asked_made_iff spec msg implicit n).mpr ⟨time, ht⟩
    rw [hmade] at unmade
    cases unmade
  | handedOff budget copy made backend run =>
    exact .inl ⟨.inr (by simp [backend, Cut]), hsettled _ _ run (handedOff_settled _ _ s)⟩
  | refused budget copy made e backend exception run =>
    exact .inl ⟨.inr (by simp [backend, Cut, exception]),
      hsettled _ _ run (settleState_settled _ _ s)⟩
  | cut budget copy made e backend run =>
    refine .inr ⟨by simp [budget, cut_iff.mpr ⟨e, backend⟩], e, ?_⟩
    rw [controllerScheduleRetry]
    exact Prog.catching_passed (hoff _ _ run) backend.2 _

/-- A retry with a delay is one hand-off and a disposition, however it was asked for. -/
theorem controllerCall_retry {c : HandlerCall} {delay : Seconds} (h : c.call.delay = some delay)
    (s : Exec) : controllerCall spec msg implicit c s =
      (do
        controllerScheduleRetry spec msg implicit delay c.onStack c.env
        dispose .retry : Run Unit) s := by
  unfold controllerCall
  cases hc : c.call with
  | retry d =>
    rw [hc] at h
    cases h
    rfl
  | retryLater d =>
    rw [hc, ControllerCall.delay] at h
    cases hd : toFloat d with
    | error e =>
      rw [hd] at h
      cases h
    | ok d' =>
      rw [hd] at h
      cases h
      have hfloat : (Prog.ofExcept (toFloat d) : Run Seconds) s = (.ok delay, s) := by
        rw [Prog.ofExcept_run, hd]
      exact Prog.bind_ok hfloat _
  | ack => rw [hc] at h; cases h
  | nack => rw [hc] at h; cases h
  | reject => rw [hc] at h; cases h

variable (spec msg implicit) in
/-- Without one it does nothing. -/
theorem controllerCall_unfloatable {c : HandlerCall} {delay : Int} (hc : c.call = .retryLater delay)
    (h : c.call.delay = none) (s : Exec) :
    ∃ e, controllerCall spec msg implicit c s = (.error e, s) := by
  rw [hc, ControllerCall.delay] at h
  cases hd : toFloat delay with
  | error e =>
    refine ⟨e, ?_⟩
    simp [controllerCall, hc, hd, Prog.bind_run]
  | ok d =>
    rw [hd] at h
    cases h

/-- A settlement by the controller itself, with what it does once the broker accepted. -/
theorem settleThen_cases (op : Settlement) (r : Reply) {k : Unit → Run Unit} (s : Exec)
    (hk : ∀ u t, (k u t).2.processed = t.processed ∧ (k u t).2.log = t.log ∧
      (k u t).2.disposition.isSome = true) :
    ((settle op r >>= k) s).2.processed = (settleState op r s).processed ∧
      ((settle op r >>= k) s).2.log = (settleState op r s).log ∧
      (((settle op r >>= k) s).2.disposition.isSome = true ↔
        s.disposition.isSome = true ∨ (s.processed = false ∧ r = .ok ())) := by
  by_cases hp : s.processed = true
  · rw [Prog.bind_error (settle_refused hp op _)]
    simp [settleState, hp, Exec.logged]
  · have hp' : s.processed = false := by simpa using hp
    cases r with
    | ok u =>
      rw [Prog.bind_ok (settle_applied hp' op)]
      obtain ⟨h₁, h₂, h₃⟩ := hk () { (s.logged (.attempt op)).logged (.settled op) with
        processed := true }
      simp [settleState, hp', h₁, h₂, h₃]
    | error e =>
      rw [Prog.bind_error (settle_failed hp' op e)]
      simp [settleState, Exec.logged]

/-- `_dispose` after a part that may have raised. -/
theorem thenDispose_cases (m : Run Unit) (d : Disposition) (s : Exec) :
    ((m >>= fun _ => dispose d) s).2.processed = (m s).2.processed ∧
      ((m >>= fun _ => dispose d) s).2.log = (m s).2.log ∧
      (((m >>= fun _ => dispose d) s).2.disposition.isSome = true ↔
        (m s).2.disposition.isSome = true ∨ (m s).1 = .ok ()) := by
  cases h : m s with
  | mk r t =>
    cases r with
    | ok u =>
      rw [Prog.bind_ok h]
      exact ⟨rfl, rfl, by simp [dispose, setDisposition, Prog.bind_run]⟩
    | error e =>
      rw [Prog.bind_error h]
      simp

theorem touched_of_log {s t u : Exec} (h : Touched s t) (hl : u.log = t.log) : Touched s u := by
  obtain ⟨rest, hrest, htouch⟩ := h
  exact ⟨rest, by rw [hl, hrest], htouch⟩

/-- A controller call that attempts to settle the delivery or, cut, does nothing at all. -/
def SettlesOrNothing (c : HandlerCall) (s : Exec) (reaches : Prop)
    (ended : Except PyExc Unit × Exec) : Prop :=
  (reaches ∧ (ended.2.processed = true ↔ Answered s c.env.broker) ∧ Touched s ended.2) ∨
    (¬reaches ∧ ∃ e, ended = (.error e, s))

theorem settle_settles (op : Settlement) (c : HandlerCall) (s : Exec) {k : Unit → Run Unit}
    (hk : ∀ u t, (k u t).2.processed = t.processed ∧ (k u t).2.log = t.log ∧
      (k u t).2.disposition.isSome = true) :
    SettlesOrNothing c s True ((settle op c.env.broker >>= k) s) := by
  obtain ⟨hp, hl, -⟩ := settleThen_cases op c.env.broker s hk
  have h := settleState_settled op c.env.broker s
  rw [SettlesOrNothing, hp]
  exact .inl ⟨trivial, h.processed, touched_of_log h.touched hl⟩

variable (spec implicit) in
/-- A call for a retry settles the delivery, or nothing. -/
theorem retry_settles (hn : getRetryCount msg.headers = some n) {c : HandlerCall} (s : Exec)
    {delay : Seconds} (hd : c.call.delay = some delay) :
    SettlesOrNothing c s (∃ delay, c.call.delay = some delay ∧ RetryReaches spec n c delay)
      (controllerCall spec msg implicit c s) := by
  obtain ⟨hp, hl, -⟩ := thenDispose_cases
    (controllerScheduleRetry spec msg implicit delay c.onStack c.env) .retry s
  have hreaches : (∃ delay, c.call.delay = some delay ∧ RetryReaches spec n c delay) ↔
      RetryReaches spec n c delay := by simp [hd]
  rw [controllerCall_retry hd, SettlesOrNothing, hreaches, hp]
  by_cases hf : FallsBack spec n c delay
  · have hst := (controllerScheduleRetry_fallsBack implicit hn hf s).1
    have h := settleState_settled (.reject true) c.env.broker s
    rw [hst] at hl ⊢
    exact .inl ⟨.inl hf, h.processed, touched_of_log h.touched hl⟩
  · obtain ⟨hr, h, -⟩ | ⟨hr, e, he⟩ := controllerScheduleRetry_proceeds implicit hn hf s
    · exact .inl ⟨.inr hr, h.processed, touched_of_log h.touched hl⟩
    · exact .inr ⟨not_or.mpr ⟨hf, hr⟩, e, Prog.bind_error he _⟩

variable (spec implicit) in
/-- A call of the controller settles the delivery once where it reaches the broker, and nothing
elsewhere. -/
theorem controllerCall_cases (hn : getRetryCount msg.headers = some n)
    (c : HandlerCall) (s : Exec) :
    SettlesOrNothing c s (Reaches spec n c) (controllerCall spec msg implicit c s) := by
  unfold Reaches
  cases hc : c.call with
  | ack =>
    rw [controllerCall, hc]
    exact settle_settles _ c s fun _ _ => ⟨rfl, rfl, rfl⟩
  | nack =>
    rw [controllerCall, hc]
    exact settle_settles _ c s fun _ _ => ⟨rfl, rfl, rfl⟩
  | reject =>
    rw [controllerCall, hc]
    exact settle_settles _ c s fun _ _ => ⟨rfl, rfl, rfl⟩
  | retry delay =>
    have hd : c.call.delay = some delay := by rw [hc]; rfl
    have h := retry_settles spec implicit hn s hd
    rwa [hc] at h
  | retryLater delay =>
    cases hd : (ControllerCall.retryLater delay).delay with
    | none =>
      have hd' : c.call.delay = none := by rw [hc, hd]
      exact .inr ⟨by simp, controllerCall_unfloatable spec msg implicit hc hd' s⟩
    | some d =>
      have hd' : c.call.delay = some d := by rw [hc, hd]
      have h := retry_settles spec implicit hn s hd'
      rwa [hc, hd] at h

variable (spec implicit) in
/-- When a retry leaves a disposition. -/
theorem retry_disposition (hn : getRetryCount msg.headers = some n) {c : HandlerCall} {s : Exec}
    {delay : Seconds} (hd : c.call.delay = some delay)
    (hinv : s.processed = true → s.disposition.isSome = true) :
    (controllerCall spec msg implicit c s).2.disposition.isSome = true ↔
      s.disposition.isSome = true ∨
        ∃ delay, c.call.delay = some delay ∧ RetryDisposes spec n c delay := by
  have hskip : ∀ P : Prop, (s.disposition.isSome = true ∨ s.processed = true ∨ P) ↔
      (s.disposition.isSome = true ∨ P) := by
    intro P
    cases hp : s.processed with
    | true => simp [hinv hp]
    | false => simp
  have hdisposes : (∃ delay, c.call.delay = some delay ∧ RetryDisposes spec n c delay) ↔
      RetryDisposes spec n c delay := by simp [hd]
  rw [controllerCall_retry hd, (thenDispose_cases _ _ s).2.2, hdisposes, RetryDisposes]
  by_cases hf : FallsBack spec n c delay
  · obtain ⟨hst, hreply⟩ := controllerScheduleRetry_fallsBack implicit hn hf s
    rw [hst, hreply, (settleState_settled _ _ s).disposition, hskip]
    simp [hf]
  · obtain ⟨hr, h, hreply⟩ | ⟨hr, e, he⟩ := controllerScheduleRetry_proceeds implicit hn hf s
    · rw [h.disposition, hreply, hskip]
      simp [hf, hr]
    · rw [he]
      simp [hf, hr]

variable (spec implicit) in
/-- When a controller call leaves a disposition. -/
theorem controllerCall_disposition (hn : getRetryCount msg.headers = some n) (c : HandlerCall)
    (s : Exec) (hinv : s.processed = true → s.disposition.isSome = true) :
    (controllerCall spec msg implicit c s).2.disposition.isSome = true ↔
      s.disposition.isSome = true ∨ Disposes spec n c := by
  have hopen : ∀ P : Prop, (s.disposition.isSome = true ∨ (s.processed = false ∧ P)) ↔
      (s.disposition.isSome = true ∨ P) := by
    intro P
    cases hp : s.processed with
    | true => simp [hinv hp]
    | false => simp
  have hsettle : ∀ op (k : Unit → Run Unit), (∀ u t, (k u t).2.processed = t.processed ∧
      (k u t).2.log = t.log ∧ (k u t).2.disposition.isSome = true) →
        (((settle op c.env.broker >>= k) s).2.disposition.isSome = true ↔
          s.disposition.isSome = true ∨ c.env.broker = .ok ()) := fun op k hk =>
    (settleThen_cases op c.env.broker s hk).2.2.trans (hopen _)
  unfold Disposes
  cases hc : c.call with
  | ack =>
    rw [controllerCall, hc]
    exact hsettle _ _ fun _ _ => ⟨rfl, rfl, rfl⟩
  | nack =>
    rw [controllerCall, hc]
    exact hsettle _ _ fun _ _ => ⟨rfl, rfl, rfl⟩
  | reject =>
    rw [controllerCall, hc]
    exact hsettle _ _ fun _ _ => ⟨rfl, rfl, rfl⟩
  | retry delay =>
    have hd : c.call.delay = some delay := by rw [hc]; rfl
    have h := retry_disposition spec implicit hn hd hinv
    rwa [hc] at h
  | retryLater delay =>
    cases hd : (ControllerCall.retryLater delay).delay with
    | none =>
      obtain ⟨e, he⟩ := controllerCall_unfloatable spec msg implicit hc (by rw [hc, hd]) s
      simp [he]
    | some d =>
      have hd' : c.call.delay = some d := by rw [hc, hd]
      have h := retry_disposition spec implicit hn hd' hinv
      rwa [hc, hd] at h

theorem controllerCalls_run (spec : HandlerSpec) (msg : Delivery) (implicit : Headers)
    (c : HandlerCall) (cs : List HandlerCall) (s : Exec) :
    controllerCalls spec msg implicit (c :: cs) s =
      controllerCalls spec msg implicit cs (controllerCall spec msg implicit c s).2 := by
  rw [controllerCalls, Prog.bind_ok (Prog.attempt_run _ _)]

theorem controllerCalls_ok (spec : HandlerSpec) (msg : Delivery) (implicit : Headers)
    (calls : List HandlerCall) (s : Exec) :
    controllerCalls spec msg implicit calls s =
      (.ok (), (controllerCalls spec msg implicit calls s).2) := by
  induction calls generalizing s with
  | nil => rfl
  | cons c cs ih =>
    rw [controllerCalls_run]
    exact ih _

variable (spec implicit) in
/-- The calls of a handler asked something of the broker, or were all cut and left no
trace. -/
theorem controllerCalls_cases (hn : getRetryCount msg.headers = some n) (calls : List HandlerCall)
    (s : Exec) :
    ((∃ c ∈ calls, Reaches spec n c) ∧
      Touched s (controllerCalls spec msg implicit calls s).2) ∨
    ((∀ c ∈ calls, ¬Reaches spec n c) ∧ (controllerCalls spec msg implicit calls s).2 = s) := by
  induction calls generalizing s with
  | nil => exact .inr ⟨by simp, rfl⟩
  | cons c cs ih =>
    rw [controllerCalls_run]
    obtain ⟨hr, -, htouch⟩ | ⟨hr, e, he⟩ := controllerCall_cases spec implicit hn c s
    · have hext := controllerCalls_keeps extendsLog_respected spec msg implicit cs
        (controllerCall spec msg implicit c s).2
      exact .inl ⟨⟨c, by simp, hr⟩, htouch.extended hext⟩
    · rw [he]
      obtain ⟨⟨d, hd, hdr⟩, htouch⟩ | ⟨hall, ht⟩ := ih s
      · exact .inl ⟨⟨d, by simp [hd], hdr⟩, htouch⟩
      · exact .inr ⟨by simpa [hr] using hall, ht⟩

/-- The call settles an open delivery. -/
def Accepts (spec : HandlerSpec) (n : Int) (c : HandlerCall) : Prop :=
  Reaches spec n c ∧ c.env.broker = .ok ()

theorem RetryReaches.disposes {c : HandlerCall} {delay : Seconds} (h : RetryReaches spec n c delay)
    (hb : c.env.broker = .ok ()) : RetryDisposes spec n c delay := by
  by_cases hf : FallsBack spec n c delay
  · exact .inl ⟨hf, .inl hb⟩
  · exact .inr ⟨hf, h.resolve_left hf, by simp [hb, Cut]⟩

/-- A call that is accepted disposes of the delivery. -/
theorem Accepts.disposes {c : HandlerCall} (h : Accepts spec n c) : Disposes spec n c := by
  obtain ⟨hr, hb⟩ := h
  unfold Reaches at hr
  unfold Disposes
  cases hc : c.call with
  | ack => exact hb
  | nack => exact hb
  | reject => exact hb
  | retry d =>
    simp only [hc] at hr
    obtain ⟨delay, hd, hreach⟩ := hr
    exact ⟨delay, hd, hreach.disposes hb⟩
  | retryLater d =>
    simp only [hc] at hr
    obtain ⟨delay, hd, hreach⟩ := hr
    exact ⟨delay, hd, hreach.disposes hb⟩

variable (spec implicit) in
/-- What the calls of a handler leave of the delivery. -/
theorem controllerCalls_processed (hn : getRetryCount msg.headers = some n)
    (calls : List HandlerCall) (s : Exec) :
    (controllerCalls spec msg implicit calls s).2.processed = true ↔
      s.processed = true ∨ ∃ c ∈ calls, Accepts spec n c := by
  induction calls generalizing s with
  | nil => simp [controllerCalls]
  | cons c cs ih =>
    have hstep : (controllerCall spec msg implicit c s).2.processed = true ↔
        s.processed = true ∨ Accepts spec n c := by
      unfold Accepts
      obtain ⟨hr, hp, -⟩ | ⟨hr, e, he⟩ := controllerCall_cases spec implicit hn c s
      · rw [hp, Answered]
        simp [hr]
      · rw [he]
        simp [hr]
    rw [controllerCalls_run, ih, hstep]
    simp [or_assoc]

variable (spec implicit) in
/-- What the calls of a handler leave in the controller. -/
theorem controllerCalls_disposition (hn : getRetryCount msg.headers = some n)
    (calls : List HandlerCall) (s : Exec)
    (hinv : s.processed = true → s.disposition.isSome = true) :
    (controllerCalls spec msg implicit calls s).2.disposition.isSome = true ↔
      s.disposition.isSome = true ∨ ∃ c ∈ calls, Disposes spec n c := by
  induction calls generalizing s with
  | nil => simp [controllerCalls]
  | cons c cs ih =>
    have hstep := controllerCall_disposition spec implicit hn c s hinv
    have hkeep : (controllerCall spec msg implicit c s).2.processed = true →
        (controllerCall spec msg implicit c s).2.disposition.isSome = true := by
      intro hp
      rw [hstep]
      obtain ⟨hr, hans, -⟩ | ⟨hr, e, he⟩ := controllerCall_cases spec implicit hn c s
      · obtain hs | hb := hans.mp hp
        · exact .inl (hinv hs)
        · exact .inr (Accepts.disposes ⟨hr, hb⟩)
      · rw [he] at hp
        exact .inl (hinv hp)
    rw [controllerCalls_run, ih _ hkeep, hstep]
    simp [or_assoc]

end Calls

/-- The backoff of a count is a float, and with the clock a time. -/
def Backoff (spec : HandlerSpec) (n : Int) (env : SettleEnv) : Prop :=
  ∃ delay time, computeRetryDelay spec.retryPolicy n env.draw = .ok delay ∧
    dispatchTime env.now delay = .ok time

/-- Rejecting after a failure gets as far as a settlement: where the failure is retried, it
has a text, and the budget is spent or the backoff is a time and the hand-off is not cut;
where it is not, the delay before the rejection passes. -/
def RejectReaches (spec : HandlerSpec) (n : Int) (x : Execution) (e : PyExc) : Prop :=
  if spec.nackOnException then
    e.strFailure = none ∧ (spec.retryPolicy.maxRetries ≤ n ∨
      (Backoff spec n x.env ∧ ¬Cut x.env.backend))
  else x.wait = .ok ()

/-- Rejecting after a failure is cut before it gets as far as a settlement. -/
def RejectCutBy (spec : HandlerSpec) (n : Int) (x : Execution) (e e' : PyExc) : Prop :=
  if spec.nackOnException then
    e.strFailure = none ∧ ¬spec.retryPolicy.maxRetries ≤ n ∧ Backoff spec n x.env ∧
      CutBy x.env.backend e'
  else CutBy x.wait e'

/-- The span and the exception handler of the application took the failure; where there is
no handler, the failure has a text for the log. -/
def Noted (spec : HandlerSpec) (x : Execution) (e : PyExc) : Prop :=
  x.recorded = .ok () ∧
    if spec.hasExceptionHandler then ¬Cut x.exceptionHandler else e.strFailure = none

/-- What was raised instead. -/
def NotingRaises (spec : HandlerSpec) (x : Execution) (e e' : PyExc) : Prop :=
  x.recorded = .error e' ∨ (x.recorded = .ok () ∧
    if spec.hasExceptionHandler then CutBy x.exceptionHandler e' else e.strFailure = some e')

/-- The worker's own handling of a failed handler gets as far as a settlement. -/
def FailureReaches (spec : HandlerSpec) (n : Int) (x : Execution) (e : PyExc) : Prop :=
  Noted spec x e ∧ RejectReaches spec n x e

/-- The worker's own handling of a failed handler ends before a settlement, in a way that
nothing around it catches. -/
def FailureCutBy (spec : HandlerSpec) (n : Int) (x : Execution) (e e' : PyExc) : Prop :=
  (∃ raised, NotingRaises spec x e raised ∧ escapes raised = some e') ∨
    (Noted spec x e ∧ RejectCutBy spec n x e e')

theorem Noted.not_raises {spec : HandlerSpec} {x : Execution} {e e' : PyExc} (h : Noted spec x e) :
    ¬NotingRaises spec x e e' := by
  obtain ⟨hr, hh⟩ := h
  rintro (hr' | ⟨-, hh'⟩)
  · rw [hr] at hr'
    cases hr'
  · split at hh
    · next hspec =>
      rw [if_pos hspec] at hh'
      exact hh (cut_iff.mpr ⟨e', hh'⟩)
    · next hspec =>
      rw [if_neg hspec, hh] at hh'
      cases hh'

theorem NotingRaises.unique {spec : HandlerSpec} {x : Execution} {e e₁ e₂ : PyExc}
    (h₁ : NotingRaises spec x e e₁) (h₂ : NotingRaises spec x e e₂) : e₁ = e₂ := by
  obtain h₁ | ⟨hr₁, h₁⟩ := h₁
  · obtain h₂ | ⟨hr₂, -⟩ := h₂
    · rw [h₁] at h₂
      cases h₂
      rfl
    · rw [h₁] at hr₂
      cases hr₂
  · obtain h₂ | ⟨-, h₂⟩ := h₂
    · rw [hr₁] at h₂
      cases h₂
    · split at h₁
      · next hspec =>
        rw [if_pos hspec] at h₂
        exact h₁.unique h₂
      · next hspec =>
        rw [if_neg hspec, h₁] at h₂
        exact Option.some.inj h₂

theorem RejectCutBy.cut {spec : HandlerSpec} {n : Int} {x : Execution} {e e' : PyExc}
    (h : RejectCutBy spec n x e e') : e'.isException = false := by
  unfold RejectCutBy at h
  split at h
  · exact h.2.2.2.2
  · exact h.2

theorem RejectCutBy.unique {spec : HandlerSpec} {n : Int} {x : Execution} {e e₁ e₂ : PyExc}
    (h₁ : RejectCutBy spec n x e e₁) (h₂ : RejectCutBy spec n x e e₂) : e₁ = e₂ := by
  unfold RejectCutBy at h₁ h₂
  split at h₁
  · next hnack =>
    rw [if_pos hnack] at h₂
    exact h₁.2.2.2.unique h₂.2.2.2
  · next hnack =>
    rw [if_neg hnack] at h₂
    exact h₁.unique h₂

/-- A rejection that reaches the broker is not cut. -/
theorem RejectReaches.not_cut {spec : HandlerSpec} {n : Int} {x : Execution} {e e' : PyExc}
    (h : RejectReaches spec n x e) : ¬RejectCutBy spec n x e e' := by
  unfold RejectReaches at h
  unfold RejectCutBy
  cases hnack : spec.nackOnException with
  | true =>
    simp only [hnack, if_true] at h ⊢
    rintro ⟨-, hmax, -, hcut⟩
    obtain hm | ⟨-, hb⟩ := h.2
    · exact hmax hm
    · exact hb (cut_iff.mpr ⟨e', hcut⟩)
  | false =>
    simp only [hnack, Bool.false_eq_true, if_false] at h ⊢
    rintro ⟨hw, -⟩
    rw [h] at hw
    cases hw

theorem FailureReaches.not_cut {spec : HandlerSpec} {n : Int} {x : Execution} {e e' : PyExc}
    (h : FailureReaches spec n x e) : ¬FailureCutBy spec n x e e' := by
  rintro (⟨raised, hr, -⟩ | ⟨-, hcut⟩)
  · exact h.1.not_raises hr
  · exact h.2.not_cut hcut

theorem FailureCutBy.unique {spec : HandlerSpec} {n : Int} {x : Execution} {e e₁ e₂ : PyExc}
    (h₁ : FailureCutBy spec n x e e₁) (h₂ : FailureCutBy spec n x e e₂) : e₁ = e₂ := by
  obtain ⟨r₁, hr₁, he₁⟩ | ⟨hn₁, hc₁⟩ := h₁
  · obtain ⟨r₂, hr₂, he₂⟩ | ⟨hn₂, -⟩ := h₂
    · rw [hr₁.unique hr₂, he₂] at he₁
      exact (Option.some.inj he₁).symm
    · exact absurd hr₁ hn₂.not_raises
  · obtain ⟨r₂, hr₂, -⟩ | ⟨-, hc₂⟩ := h₂
    · exact absurd hr₂ hn₁.not_raises
    · exact hc₁.unique hc₂

/-- `logging` changes no state. -/
theorem logging_state (m : Run Unit) (s : Exec) : (logging m s).2 = (m s).2 := by
  cases h : m s with
  | mk r t =>
    cases r with
    | ok u => rw [logging_ok h]
    | error e =>
      cases he : e.isException with
      | true => rw [logging_exception h he]
      | false => rw [logging_cut h he]

section Failures

variable {spec : HandlerSpec} {msg : Delivery} {implicit : Headers} {n : Int} {x : Execution}
  {s : Exec}

theorem logging_settleReply {m : Run Unit} {r : Reply} {t : Exec} (h : m s = (settleReply s r, t)) :
    logging m s = (settleReply s r, t) := by
  obtain ⟨hr, -⟩ | ⟨e, hr, -, he⟩ := settleReply_cases r s
  · rw [hr] at h ⊢
    exact logging_ok h
  · rw [hr] at h ⊢
    exact logging_cut h he.2

/-- What a cut lets through is the cut. -/
theorem escapes_cut {e : PyExc} (he : e.isException = false) : escapes e = some e := by
  simp [escapes, he]

/-- A settlement was attempted, or nothing happened and what `cutBy` says got through. -/
def Attempts (x : Execution) (s : Exec) (reaches : Prop) (cutBy : PyExc → Prop)
    (ended : Except PyExc Unit × Exec) : Prop :=
  (reaches ∧ ∃ t, ended = (settleReply s x.env.broker, t) ∧ Settled s x.env.broker t) ∨
    (¬reaches ∧ ended.2 = s ∧ ∀ e', cutBy e' ↔ escaping ended.1 = some e')

/-- Nothing happened, and an `Exception` was logged. -/
theorem Attempts.quiet {reaches : Prop} {cutBy : PyExc → Prop} {ended : Except PyExc Unit × Exec}
    (hreach : ¬reaches) (hcut : ∀ e', ¬cutBy e') (hended : ended = (.ok (), s)) :
    Attempts x s reaches cutBy ended := by
  rw [hended]
  exact .inr ⟨hreach, rfl, fun e' => iff_of_false (hcut e') (by simp [escaping])⟩

/-- Nothing happened, and a cut went on. -/
theorem Attempts.cut {reaches : Prop} {cutBy : PyExc → Prop} {ended : Except PyExc Unit × Exec}
    {e : PyExc} (hreach : ¬reaches) (hcut : cutBy e) (hunique : ∀ e', cutBy e' → e = e')
    (he : e.isException = false) (hended : ended = (.error e, s)) :
    Attempts x s reaches cutBy ended := by
  rw [hended]
  refine .inr ⟨hreach, rfl, fun e' => ?_⟩
  rw [escaping, escapes_cut he, Option.some.injEq]
  constructor
  · exact hunique e'
  · rintro rfl
    exact hcut

variable (spec msg implicit n x s) in
/-- The retry of a failed message, whose answer nobody reads. -/
theorem scheduleRetry_attempts (e : PyExc) :
    Attempts x s
      (e.strFailure = none ∧ (spec.retryPolicy.maxRetries ≤ n ∨
        (Backoff spec n x.env ∧ ¬Cut x.env.backend)))
      (fun e' => e.strFailure = none ∧ ¬spec.retryPolicy.maxRetries ≤ n ∧ Backoff spec n x.env ∧
        CutBy x.env.backend e')
      (logging (do
        let _ ← scheduleRetry spec msg implicit n none (some e) x.env : Run Unit) s) := by
  have hdiscard : ∀ r t, scheduleRetry spec msg implicit n none (some e) x.env s = (r, t) →
      (do
        let _ ← scheduleRetry spec msg implicit n none (some e) x.env : Run Unit) s =
          (r.map fun _ => (), t) := by
    intro r t hr
    rw [Prog.bind_run, hr]
    cases r <;> rfl
  have hsettled : ∀ b t, scheduleRetry spec msg implicit n none (some e) x.env s =
        ((settleReply s x.env.broker).map fun _ => b, t) →
      logging (do
        let _ ← scheduleRetry spec msg implicit n none (some e) x.env : Run Unit) s =
          (settleReply s x.env.broker, t) := by
    intro b t hr
    apply logging_settleReply
    rw [hdiscard _ _ hr]
    cases settleReply s x.env.broker <;> rfl
  have htold : (∃ text, lastErrorText msg (some e) = .ok text) ↔ e.strFailure = none := by
    simp [lastErrorText_ok_iff]
  have hmade : (∃ copy, delayedMessage spec msg implicit n none (some e) x.env = .ok copy) ↔
      e.strFailure = none ∧ Backoff spec n x.env := by
    rw [← htold]
    simp only [delayedMessage_ok_iff, retryDelay, Backoff]
    constructor
    · rintro ⟨copy, d, text, time, hd, ht, htime, -⟩
      exact ⟨⟨text, ht⟩, d, time, hd, htime⟩
    · rintro ⟨⟨text, ht⟩, d, time, hd, htime⟩
      exact ⟨_, d, text, time, hd, ht, htime, rfl⟩
  cases scheduleRetry_cases spec msg implicit n none (some e) x.env s with
  | exhausted spent text told run =>
    exact .inl ⟨⟨htold.mp ⟨text, told⟩, .inl spent⟩, _, hsettled _ _ run,
      settleState_settled _ _ s⟩
  | untold spent e' untold run =>
    -- the text of the failure raises and the outer clause logs it
    have hno : ¬e.strFailure = none := by
      rw [← htold]
      rintro ⟨text, ht⟩
      rw [untold] at ht
      cases ht
    exact .quiet (fun h => hno h.1) (fun _ h => hno h.1)
      (logging_exception (hdiscard _ _ run) (lastErrorText_exception untold))
  | unmade budget e' unmade run =>
    have hno : ¬(e.strFailure = none ∧ Backoff spec n x.env) := by
      rw [← hmade]
      rintro ⟨copy, hc⟩
      rw [unmade] at hc
      cases hc
    refine .quiet ?_ ?_ (logging_exception (hdiscard _ _ run) (delayedMessage_exception unmade))
    · rintro ⟨htext, hspent | ⟨hback, -⟩⟩
      · exact budget hspent
      · exact hno ⟨htext, hback⟩
    · rintro e'' ⟨htext, -, hback, -⟩
      exact hno ⟨htext, hback⟩
  | handedOff budget copy made backend run =>
    obtain ⟨htext, hback⟩ := hmade.mp ⟨copy, made⟩
    exact .inl ⟨⟨htext, .inr ⟨hback, by simp [backend, Cut]⟩⟩, _, hsettled _ _ run,
      handedOff_settled _ _ s⟩
  | refused budget copy made e' backend exception run =>
    obtain ⟨htext, hback⟩ := hmade.mp ⟨copy, made⟩
    exact .inl ⟨⟨htext, .inr ⟨hback, by simp [backend, Cut, exception]⟩⟩, _, hsettled _ _ run,
      settleState_settled _ _ s⟩
  | cut budget copy made e' backend run =>
    obtain ⟨htext, hback⟩ := hmade.mp ⟨copy, made⟩
    refine .cut ?_ ⟨htext, budget, hback, backend⟩ (fun _ h => backend.unique h.2.2.2) backend.2
      (logging_cut (hdiscard _ _ run) backend.2)
    rintro ⟨-, hspent | ⟨-, hb⟩⟩
    · exact budget hspent
    · exact hb (cut_iff.mpr ⟨e', backend⟩)

variable (x s) in
/-- The plain reject, after the wait. -/
theorem reject_attempts : Attempts x s (x.wait = .ok ()) (fun e => CutBy x.wait e)
    (logging (logging (do
      Prog.ofExcept x.wait
      settle (.reject false) x.env.broker : Run Unit)) s) := by
  cases hw : x.wait with
  | ok u =>
    refine .inl ⟨rfl, settleState (.reject false) x.env.broker s, ?_, settleState_settled _ _ s⟩
    apply logging_settleReply
    exact logging_settle (.reject false) x.env.broker s
  | error e' =>
    have hrun : (do
        Prog.ofExcept (.error e')
        settle (.reject false) x.env.broker : Run Unit) s = (.error e', s) := rfl
    cases he : e'.isException with
    | true =>
      refine .quiet (by simp) ?_ (logging_ok (logging_exception hrun he))
      rintro e'' ⟨heq, hne⟩
      cases heq
      simp [he] at hne
    | false =>
      have hcut : CutBy (.error e') e' := ⟨rfl, he⟩
      exact .cut (by simp) hcut (fun _ h => hcut.unique h) he
        (logging_cut (logging_cut hrun he) he)

variable (spec msg implicit n x s) in
/-- Rejecting after a failure: a settlement was attempted, or nothing happened. -/
theorem handleRejectMessage_cases (e : PyExc) :
    Attempts x s (RejectReaches spec n x e) (RejectCutBy spec n x e)
      (handleRejectMessage spec msg implicit false n (some e) x s) := by
  unfold handleRejectMessage RejectReaches RejectCutBy
  cases spec.nackOnException with
  | true => exact scheduleRetry_attempts spec msg implicit n x s e
  | false => exact reject_attempts x s

variable (spec msg x s) in
/-- Noting a failure changes nothing; what it raises ends the handling. -/
theorem noteException_cases (e : PyExc) :
    (Noted spec x e ∧ noteException spec msg x e s = (.ok (), s)) ∨
      ∃ e', NotingRaises spec x e e' ∧ noteException spec msg x e s = (.error e', s) := by
  unfold noteException Noted NotingRaises
  cases hrec : x.recorded with
  | error e' => exact .inr ⟨e', .inl rfl, rfl⟩
  | ok u =>
    have hskip : (Prog.ofExcept (.ok u) : Run Unit) s = (.ok (), s) := rfl
    rw [Prog.bind_ok hskip]
    cases spec.hasExceptionHandler with
    | true =>
      have hrun : (Prog.ofExcept x.exceptionHandler : Run Unit) s = (x.exceptionHandler, s) := by
        simp
      cases hr : x.exceptionHandler with
      | ok u =>
        rw [hr] at hrun
        exact .inl ⟨⟨rfl, by simp [Cut]⟩, logging_ok hrun⟩
      | error e' =>
        rw [hr] at hrun
        cases he : e'.isException with
        | true => exact .inl ⟨⟨rfl, by simp [Cut, he]⟩, logging_exception hrun he⟩
        | false => exact .inr ⟨e', .inr ⟨rfl, by simp [CutBy, he]⟩, logging_cut hrun he⟩
    | false =>
      simp only [Bool.false_eq_true, if_false]
      cases hf : e.strFailure with
      | none =>
        obtain ⟨text, ht⟩ := (PyExc.str_ok_iff msg.repr).mpr hf
        exact .inl ⟨⟨trivial, rfl⟩, by simp [shown, ht, Prog.bind_run]⟩
      | some f =>
        have ht := (PyExc.str_error_iff msg.repr).mpr hf
        exact .inr ⟨f, .inr ⟨trivial, rfl⟩, by simp [shown, ht, Prog.bind_run]⟩

variable (spec msg implicit n x s) in
/-- Handling a failure: a settlement was attempted, or nothing happened. -/
theorem handleException_cases (e : PyExc) :
    Attempts x s (FailureReaches spec n x e) (FailureCutBy spec n x e)
      (handleException spec msg implicit n x e s) := by
  unfold handleException
  obtain ⟨hnoted, hrun⟩ | ⟨e', hraises, hrun⟩ := noteException_cases spec msg x s e
  · rw [Prog.bind_ok hrun]
    have hskip : ∀ e', ¬NotingRaises spec x e e' := fun _ => hnoted.not_raises
    have hcutBy : FailureCutBy spec n x e = RejectCutBy spec n x e := by
      funext e'
      simp [FailureCutBy, hskip, hnoted]
    have hreaches : FailureReaches spec n x e ↔ RejectReaches spec n x e := by
      simp [FailureReaches, hnoted]
    rw [hcutBy, hreaches]
    cases hnack : spec.nackOnException with
    | true => exact handleRejectMessage_cases spec msg implicit n x s e
    | false =>
      -- no retry count is passed on here, and without retries none is read
      have hreach : RejectReaches spec n x e ↔ RejectReaches spec 0 x e := by
        simp [RejectReaches, hnack]
      have hcut : RejectCutBy spec n x e = RejectCutBy spec 0 x e := by
        funext e'
        simp [RejectCutBy, hnack]
      rw [hreach, hcut]
      exact handleRejectMessage_cases spec msg implicit 0 x s e
  · rw [Prog.bind_error hrun]
    refine .inr ⟨fun h => h.1.not_raises hraises, rfl, fun e'' => ?_⟩
    constructor
    · rintro (⟨raised, hr, hesc⟩ | ⟨hnoted, -⟩)
      · rw [hr.unique hraises] at hesc
        exact hesc
      · exact absurd hraises hnoted.not_raises
    · intro hesc
      exact .inl ⟨e', hraises, hesc⟩

/-- A handler that returned: what is left is the acknowledgement. -/
theorem handlerWithLadder_returned (hx : x.ending = .returned) {t : Exec}
    (ht : controllerCalls spec msg implicit x.calls s = (.ok (), t)) :
    handlerWithLadder spec msg implicit n x s =
      Prog.tryExcept (acknowledge x) (exceptLadder spec msg implicit n x) t := by
  have hrun : runHandler spec msg implicit x s = (.ok (), t) := by
    rw [runHandler, Prog.bind_ok ht, hx]
    rfl
  rw [handlerWithLadder, Prog.tryExcept, Prog.bind_ok hrun]
  rfl

/-- A handler that raised: what is left is the except ladder. -/
theorem handlerWithLadder_raised {e : PyExc} (hx : x.ending = .raised e) {t : Exec}
    (ht : controllerCalls spec msg implicit x.calls s = (.ok (), t)) :
    handlerWithLadder spec msg implicit n x s = exceptLadder spec msg implicit n x e t := by
  have hrun : runHandler spec msg implicit x s = (.error e, t) := by
    rw [runHandler, Prog.bind_ok ht, hx]
    rfl
  rw [handlerWithLadder, Prog.tryExcept_error (Prog.bind_error hrun _)]

variable (spec msg implicit n x s) in
/-- Whatever the calls of the handler did, its ending keeps. -/
theorem handlerWithLadder_extends {F : Prog.Frame Exec} (h : Respected F) :
    F.rel (controllerCalls spec msg implicit x.calls s).2
      (handlerWithLadder spec msg implicit n x s).2 := by
  have ht := controllerCalls_ok spec msg implicit x.calls s
  cases hx : x.ending with
  | returned =>
    rw [handlerWithLadder_returned hx ht]
    exact ((acknowledge_keeps h x).tryExcept (exceptLadder_keeps h spec msg implicit x n)) _
  | raised e =>
    rw [handlerWithLadder_raised hx ht]
    exact exceptLadder_keeps h spec msg implicit x n e _

/-- The success path. -/
theorem acknowledge_run (s : Exec) :
    acknowledge x s = if s.disposition.isNone then
      (settleReply s x.env.broker, settleState .ack x.env.broker s) else (.ok (), s) := by
  rw [acknowledge, Prog.bind_ok (Prog.get_run s)]
  cases s.disposition with
  | none => exact logging_settle .ack x.env.broker s
  | some d => rfl

/-- The branch of unparseable payloads, where the span took the exception. -/
theorem rejectUnparseable_run (hrec : x.recorded = .ok ()) (s : Exec) :
    rejectUnparseable x s = if s.disposition.isNone then
      (settleReply s x.env.broker, settleState (.reject false) x.env.broker s)
      else (.ok (), s) := by
  have hskip : (Prog.ofExcept x.recorded : Run Unit) s = (.ok (), s) := by simp [hrec]
  rw [rejectUnparseable, Prog.bind_ok hskip, Prog.bind_ok (Prog.get_run s)]
  cases s.disposition with
  | none => exact logging_settle (.reject false) x.env.broker s
  | some d => rfl

theorem rejectUnparseable_unrecorded {e : PyExc} (hrec : x.recorded = .error e) (s : Exec) :
    rejectUnparseable x s = (.error e, s) := by
  have hraise : (Prog.ofExcept x.recorded : Run Unit) s = (.error e, s) := by simp [hrec]
  exact Prog.bind_error hraise _

variable (spec msg implicit n x) in
/-- The branch the except ladder takes for an ordinary exception. -/
theorem exceptLadder_exception {e : PyExc} (he : e.isException = true)
    (hv : ∀ text, e ≠ .payloadValidationError text) :
    exceptLadder spec msg implicit n x e = handleException spec msg implicit n x e := by
  cases e with
  | payloadValidationError text => exact absurd rfl (hv text)
  | messageDisposed d => cases he
  | cancelledError => cases he
  | baseException kind => cases he
  | error kind text => rfl
  | messageProcessError => rfl
  | timeoutError => rfl

/-- The exception that leaves the timeout scope in the place of `e`. -/
def timeoutOf (spec : HandlerSpec) (x : Execution) (e : PyExc) : PyExc :=
  if e = .cancelledError ∧ spec.timeout.isSome ∧ x.expired then .timeoutError else e

/-- How the body of the unit of work ends when the handler with its except ladder ended
so: an exception is logged, and only a cut or an exception without a text gets through. -/
def leavesBody (spec : HandlerSpec) (x : Execution) (r : Reply) : Reply :=
  replyOf ((escaping r).map (timeoutOf spec x))

theorem transactionBody_run {r : Reply} {t : Exec}
    (h : handlerWithLadder spec msg implicit n x s = (r, t)) :
    transactionBody spec msg implicit n x s = (leavesBody spec x r, t) := by
  have hcritical := critical_run msg h
  unfold transactionBody timeoutScope leavesBody timeoutOf
  cases hesc : escaping r with
  | none =>
    rw [hesc] at hcritical
    exact Prog.tryExcept_ok hcritical _
  | some e =>
    rw [hesc] at hcritical
    rw [Prog.tryExcept_error hcritical]
    simp only [Option.map_some, replyOf]
    split <;> rfl

variable (spec msg implicit n x s) in
theorem transactionBody_state : (transactionBody spec msg implicit n x s).2 =
    (handlerWithLadder spec msg implicit n x s).2 := by
  obtain ⟨r, t, h⟩ : ∃ r t, handlerWithLadder spec msg implicit n x s = (r, t) := ⟨_, _, rfl⟩
  rw [transactionBody_run h, h]

end Failures

end WorkerOutcomes

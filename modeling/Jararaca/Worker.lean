import Jararaca.Interceptors

/-!
# One execution of a message handler

`MessageHandlerCallback.handle_message` of messagebus/worker.py with everything it
calls: the controller the handler settles its message through, the retry hand-off,
the rejection path, the except ladder, the timeout scope and the unit of work. One
execution is given by what the outside decided in it: the calls the handler made,
how it ended, and the answers of the broker, of the broker backend and of the clock.
-/
namespace Worker

open Programs Messages UnitOfWork Interceptors

/-- A settlement of the delivery; `nack` requeues by default, `reject` does not. -/
inductive Settlement where
  | ack
  | nack
  | reject (requeue : Bool)
  deriving DecidableEq, Repr

/-- The decorator options and the worker configuration `handle_message` reads. -/
structure HandlerSpec where
  topic : String
  queueName : String
  timeout : Option Nat
  hasExceptionHandler : Bool
  nackOnException : Bool
  nackDelayOnException : ℚ
  retryConfig : Option RetryPolicy
  consumerRetryPolicy : RetryPolicy

/-- `self.message_handler.spec.retry_config or self.consumer.config.consumer_retry_policy`. -/
def HandlerSpec.retryPolicy (spec : HandlerSpec) : RetryPolicy :=
  spec.retryConfig.getD spec.consumerRetryPolicy

/-- What the outside answers while one settlement is decided: `broker` is the answer
of the broker to an ack, nack or reject of an unsettled delivery, `backend` the answer
to `enqueue_delayed_message`, `extra` what the calling code put over the implicit
headers of the transaction. -/
structure SettleEnv where
  broker : Reply := .ok ()
  backend : Reply := .ok ()
  now : ℚ := 0
  draw : ℚ := 0
  uuid : String := "uuid"
  extra : Headers := Headers.empty

inductive ControllerCall where
  | ack
  | nack
  | reject
  | retry (delay : Seconds)
  | retryLater (delay : Int)

/-- The delay a retry hands on. `retry_later` makes a float of its own first. -/
def ControllerCall.delay : ControllerCall → Option Seconds
  | .retry delay => some delay
  | .retryLater delay => (toFloat delay).toOption
  | _ => none

/-- A controller call with its surroundings. `onStack` says whether the stack walk of
`_get_callback` finds the worker's callback: it does when the handler's own task
awaits the call, it does not from a task the handler started. -/
structure HandlerCall where
  call : ControllerCall
  onStack : Bool := true
  env : SettleEnv := {}

/-- How the handler's coroutine ended. -/
inductive Ending where
  | returned
  | raised (e : PyExc)
  deriving DecidableEq, Repr

/-- One execution as the outside decides it. A handler that goes on after a call
raised has swallowed the exception; what finally left it is its `ending`.
A payload that does not validate is an ending by `payloadValidationError`. -/
structure Execution where
  calls : List HandlerCall := []
  staged : List StageCall := []
  ending : Ending := .returned
  -- the deadline of `asyncio.timeout` passed while the scope was open
  expired : Bool := false
  -- `record_exception` of the tracing span around the handler
  recorded : Reply := .ok ()
  exceptionHandler : Reply := .ok ()
  wait : Reply := .ok ()
  env : SettleEnv := {}
  ambient : Headers := Headers.empty

/-- What an execution does to its delivery, to the broker backend and around it. -/
inductive Event where
  | attempt (op : Settlement)
  | settled (op : Settlement)
  | enqueued (copy : DelayedMessageData)
  | uow (event : UowEvent Effect)

/-- The events at the broker or at the broker backend on behalf of the delivery. -/
def Event.touches : Event → Bool
  | .uow _ => false
  | _ => true

/-- The state of one execution: aio-pika's processed flag of the delivery, the
controller's disposition, and the log of what was done so far. -/
structure Exec where
  processed : Bool := false
  disposition : Option Disposition := none
  log : List Event := []

instance : Traced Exec Effect where
  record events s := { s with log := s.log ++ events.map .uow }
  record_nil s := by simp
  record_record first second s := by simp

def Exec.logged (s : Exec) (e : Event) : Exec := { s with log := s.log ++ [e] }

abbrev Run := Prog Exec PyExc

/-- `ack`, `nack` and `reject` of aio-pika's incoming message: a delivery that was
settled once refuses every later settlement. -/
def settle (op : Settlement) (reply : Reply) : Run Unit := do
  Prog.modify (·.logged (.attempt op))
  let s ← Prog.get
  Prog.when s.processed (Prog.raise .messageProcessError)
  Prog.ofExcept reply
  Prog.modify fun s => { s.logged (.settled op) with processed := true }

/-- `try: ... except Exception: log`. The record makes the text, and no failure of it leaves. -/
def logging (m : Run Unit) : Run Unit := Prog.catching PyExc.isException m fun _ => pure ()

/-- `str(exception)`, evaluated by the worker itself. -/
def shown (msg : Delivery) (e : PyExc) : Except PyExc String := e.str msg.repr

/-- The same with the text in an f-string, which is made before the record is. -/
def critical (msg : Delivery) (m : Run Unit) : Run Unit :=
  Prog.catching PyExc.isException m fun e => do
    let _ ← Prog.ofExcept (shown msg e)

def enqueueDelayedMessage (m : DelayedMessageData) (reply : Reply) : Run Unit := do
  Prog.ofExcept reply
  Prog.modify (·.logged (.enqueued m))

def retryHeaders (msg : Delivery) (implicit : Headers) (retryCount : Int)
    (lastError : Option String) : Headers :=
  let h := (msg.headers.scalars.merge
    (fun k => (implicit k).filter (· != .other "None"))).set xRetryCount (.int (retryCount + 1))
  match lastError with
  | none => h
  | some text => h.set xLastError (.str text)

def retryCopy (spec : HandlerSpec) (msg : Delivery) (implicit : Headers) (retryCount : Int)
    (dispatchTime : Int) (lastError : Option String) (env : SettleEnv) : DelayedMessageData where
  messageTopic := spec.topic
  payload := msg.body
  dispatchTime := dispatchTime
  headers := some (retryHeaders msg (implicit.merge env.extra) retryCount lastError)
  targetQueue := some spec.queueName
  messageId := some (orElse msg.messageId env.uuid)
  contentType := msg.contentType
  contentEncoding := msg.contentEncoding

/-- The explicit delay, or the configured backoff where none is given. -/
def retryDelay (spec : HandlerSpec) (retryCount : Int) (delay : Option Seconds) (env : SettleEnv) :
    Except PyExc Seconds :=
  match delay with
  | some d => .ok d
  | none => computeRetryDelay spec.retryPolicy retryCount env.draw

/-- `str(exception) if exception is not None else ...`. -/
def lastErrorText (msg : Delivery) : Option PyExc → Except PyExc (Option String)
  | none => .ok none
  | some e => (shown msg e).map some

/-- The part of `schedule_retry` between the budget and the first `try`. -/
def delayedMessage (spec : HandlerSpec) (msg : Delivery) (implicit : Headers) (retryCount : Int)
    (delay : Option Seconds) (exception : Option PyExc) (env : SettleEnv) :
    Except PyExc DelayedMessageData := do
  let delay ← retryDelay spec retryCount delay env
  let lastError ← lastErrorText msg exception
  let dispatchTime ← dispatchTime env.now delay
  return retryCopy spec msg implicit retryCount dispatchTime lastError env

def scheduleRetry (spec : HandlerSpec) (msg : Delivery) (implicit : Headers) (retryCount : Int)
    (delay : Option Seconds) (exception : Option PyExc) (env : SettleEnv) : Run Bool :=
  if spec.retryPolicy.maxRetries ≤ retryCount then do
    let _ ← Prog.ofExcept (lastErrorText msg exception)
    logging (settle (.reject false) env.broker)
    return false
  else do
    let copy ← Prog.ofExcept (delayedMessage spec msg implicit retryCount delay exception env)
    let handedOff ← Prog.catching PyExc.isException
      (do
        enqueueDelayedMessage copy env.backend
        return true)
      (fun _ => do
        logging (settle (.reject true) env.broker)
        return false)
    Prog.when handedOff (logging (settle .ack env.broker))
    return handedOff

/-- `int(str(headers.get("x-retry-count", 0)))`, with the `ValueError` of `int`. -/
def readRetryCount (msg : Delivery) : Except PyExc Int :=
  match getRetryCount msg.headers with
  | none => .error (.error "ValueError" "invalid literal for int() with base 10")
  | some n => .ok n

/-- The hand-off of `_schedule_retry`; the stack walk raises when it finds no callback. -/
def handOff (spec : HandlerSpec) (msg : Delivery) (implicit : Headers) (delay : Seconds)
    (onStack : Bool) (env : SettleEnv) : Run Unit := do
  Prog.when (!onStack)
    (Prog.raise (.error "RuntimeError" "Could not find callback context for message retry"))
  let retryCount ← Prog.ofExcept (readRetryCount msg)
  let _ ← scheduleRetry spec msg implicit retryCount (some delay) none env

/-- `_schedule_retry` of the controller: a failed hand-off requeues the delivery. -/
def controllerScheduleRetry (spec : HandlerSpec) (msg : Delivery) (implicit : Headers)
    (delay : Seconds) (onStack : Bool) (env : SettleEnv) : Run Unit :=
  Prog.catching PyExc.isException (handOff spec msg implicit delay onStack env) fun _ =>
    Prog.catching (· == .messageProcessError) (settle (.reject true) env.broker) fun _ => pure ()

def setDisposition (d : Disposition) : Run Unit :=
  Prog.modify fun s => { s with disposition := some d }

def dispose (d : Disposition) : Run Unit := do
  setDisposition d
  Prog.raise (.messageDisposed d)

/-- The methods of `AioPikaMessageBusController`. -/
def controllerCall (spec : HandlerSpec) (msg : Delivery) (implicit : Headers) (c : HandlerCall) :
    Run Unit :=
  match c.call with
  | .ack => do
    settle .ack c.env.broker
    setDisposition .ack
  | .nack => do
    settle .nack c.env.broker
    dispose .nack
  | .reject => do
    settle (.reject false) c.env.broker
    dispose .reject
  | .retry delay => do
    controllerScheduleRetry spec msg implicit delay c.onStack c.env
    dispose .retry
  | .retryLater delay => do
    let delay ← Prog.ofExcept (toFloat delay)
    controllerScheduleRetry spec msg implicit delay c.onStack c.env
    dispose .retry

def controllerCalls (spec : HandlerSpec) (msg : Delivery) (implicit : Headers) :
    List HandlerCall → Run Unit
  | [] => pure ()
  | c :: cs => do
    let _ ← Prog.attempt (controllerCall spec msg implicit c)
    controllerCalls spec msg implicit cs

/-- `await future`: the calls of the handler, then its ending. -/
def runHandler (spec : HandlerSpec) (msg : Delivery) (implicit : Headers) (x : Execution) :
    Run Unit := do
  controllerCalls spec msg implicit x.calls
  match x.ending with
  | .returned => pure ()
  | .raised e => Prog.raise e

def handleRejectMessage (spec : HandlerSpec) (msg : Delivery) (implicit : Headers)
    (requeue : Bool) (retryCount : Int) (exception : Option PyExc) (x : Execution) : Run Unit :=
  logging (
    if !requeue && spec.nackOnException && exception.isSome then do
      let _ ← scheduleRetry spec msg implicit retryCount none exception x.env
    else
      logging (do
        Prog.ofExcept x.wait
        settle (.reject requeue) x.env.broker))

/-- The success path after `await future`. -/
def acknowledge (x : Execution) : Run Unit := do
  let s ← Prog.get
  Prog.when s.disposition.isNone (logging (settle .ack x.env.broker))

/-- The branch of `MessagePayloadValidationError`. -/
def rejectUnparseable (x : Execution) : Run Unit := do
  Prog.ofExcept x.recorded
  let s ← Prog.get
  Prog.when s.disposition.isNone (logging (settle (.reject false) x.env.broker))

/-- The first half of the branch of any other `Exception`: the span and the exception
handler of the application are told, and without a handler the failure is logged. -/
def noteException (spec : HandlerSpec) (msg : Delivery) (x : Execution) (e : PyExc) : Run Unit := do
  Prog.ofExcept x.recorded
  if spec.hasExceptionHandler then
    logging (Prog.ofExcept x.exceptionHandler)
  else
    let _ ← Prog.ofExcept (shown msg e)

/-- The branch of any other `Exception`. -/
def handleException (spec : HandlerSpec) (msg : Delivery) (implicit : Headers) (retryCount : Int)
    (x : Execution) (e : PyExc) : Run Unit := do
  noteException spec msg x e
  if spec.nackOnException then
    handleRejectMessage spec msg implicit false retryCount (some e) x
  else
    handleRejectMessage spec msg implicit false 0 (some e) x

def exceptLadder (spec : HandlerSpec) (msg : Delivery) (implicit : Headers) (retryCount : Int)
    (x : Execution) (e : PyExc) : Run Unit :=
  match e with
  | .messageDisposed _ => pure ()
  | .payloadValidationError _ => rejectUnparseable x
  | e => if e.isException then handleException spec msg implicit retryCount x e else Prog.raise e

def handlerWithLadder (spec : HandlerSpec) (msg : Delivery) (implicit : Headers)
    (retryCount : Int) (x : Execution) : Run Unit :=
  Prog.tryExcept
    (do
      runHandler spec msg implicit x
      acknowledge x)
    (exceptLadder spec msg implicit retryCount x)

/-- `asyncio.timeout`: the cancellation it caused leaves the scope as `TimeoutError`. -/
def timeoutScope (spec : HandlerSpec) (x : Execution) (m : Run Unit) : Run Unit :=
  Prog.tryExcept m fun e =>
    if e = .cancelledError ∧ spec.timeout.isSome ∧ x.expired then Prog.raise .timeoutError
    else Prog.raise e

def transactionBody (spec : HandlerSpec) (msg : Delivery) (implicit : Headers)
    (retryCount : Int) (x : Execution) : Run Unit :=
  timeoutScope spec x (critical msg (handlerWithLadder spec msg implicit retryCount x))

/-- The implicit headers `handle_message` provides. -/
def providedHeaders (msg : Delivery) (x : Execution) : Headers :=
  x.ambient.merge msg.headers.scalars

def handleMessage (spec : HandlerSpec) (interceptors : List Interceptor) (msg : Delivery)
    (x : Execution) : Run Unit := do
  let retryCount ← Prog.ofExcept (readRetryCount msg)
  unitOfWork (contextsOf (providedHeaders msg x) x.staged interceptors)
    (transactionBody spec msg (implicitInside (providedHeaders msg x) interceptors) retryCount x)

def final (spec : HandlerSpec) (interceptors : List Interceptor) (msg : Delivery)
    (x : Execution) : Exec := (handleMessage spec interceptors msg x {}).2

def settlements (log : List Event) : List Settlement := log.filterMap fun
  | .settled op => some op
  | _ => none

/-- The delayed copies the broker backend accepted, in order. -/
def copies (log : List Event) : List DelayedMessageData := log.filterMap fun
  | .enqueued copy => some copy
  | _ => none

/-- The events of the unit of work, in order. -/
def uowEvents (log : List Event) : List (UowEvent Effect) := log.filterMap fun
  | .uow e => some e
  | _ => none

end Worker

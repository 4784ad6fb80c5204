import Jararaca.UnitOfWork

/-!
# The interceptors of the framework

What the interceptors shipped with the framework do around one transaction: the
container, the database session, the message publisher, the websocket sender and the
tracing setup. Each is a generator with one yield. Everything that belongs to another
system (the database, the broker connection, the websocket backend, the tracer) is a
reply given from outside.
-/
namespace Interceptors

open Programs Messages UnitOfWork

/-- A message of the bus: its topic, its JSON body and whether it is a task. -/
structure BusMessage where
  topic : String
  body : Bytes
  isTask : Bool

/-- The idempotency options of `delay` and `schedule`. -/
structure DelayOptions where
  idempotencyKey : Option String := none
  payloadPolicy : PayloadPolicy := .ignore
  timePolicy : TimePolicy := .replace

/-- A call on the publisher obtained from `use_publisher`. `now` is the clock when
`delay` ran, `instant` the epoch instant of the datetime given to `schedule`. -/
inductive StageCall where
  | publish (message : BusMessage)
  | delay (message : BusMessage) (seconds : Int) (now : ℚ) (options : DelayOptions)
  | schedule (message : BusMessage) (instant : ℚ) (options : DelayOptions)

/-- A message handed to the exchange. -/
structure Outgoing where
  routingKey : String
  body : Bytes
  headers : Headers
  mandatory : Bool

inductive Effect where
  | commit (connection : String)
  | rollback (connection : String)
  | published (message : Outgoing)
  | scheduled (message : DelayedMessageData)
  | busCommit
  | busRollback
  | sent (rooms : List String) (message : Bytes)
  | other (name : String)

def emit (e : Effect) : Prog (List Effect) PyExc Unit := Prog.modify (· ++ [e])

/-- What one transaction gives its interceptors: the implicit headers in force
where the interceptor runs and the publisher calls of the body. -/
structure Transaction where
  implicit : Headers
  staged : List StageCall

/-- An `AppInterceptor`. While it is entered, `provides` is merged into the implicit
headers that everything inside it sees. -/
structure Interceptor where
  provides : Headers := Headers.empty
  intercept : Transaction → Context Effect

/-- The implicit headers inside a stack of interceptors. -/
def implicitInside (implicit : Headers) (interceptors : List Interceptor) : Headers :=
  interceptors.foldl (fun h i => h.merge i.provides) implicit

def interceptAll (staged : List StageCall) : Headers → List Interceptor → List (Context Effect)
  | _, [] => []
  | implicit, i :: is =>
    i.intercept ⟨implicit, staged⟩ :: interceptAll staged (implicit.merge i.provides) is

/-- The rest of a generator that does nothing after its yield. -/
def passThrough : Option PyExc → Prog (List Effect) PyExc Unit
  | none => pure ()
  | some e => Prog.raise e

/-- `ContainerInterceptor` of core/uow.py. -/
def containerInterceptor : Context Effect := Context.ofGenerator (pure ()) passThrough

/-- `ctxs` of `UnitOfWorkContextProvider.__call__`: the container first. -/
def contextsOf (implicit : Headers) (staged : List StageCall) (interceptors : List Interceptor) :
    List (Context Effect) :=
  containerInterceptor :: interceptAll staged implicit interceptors

/-- The answers of SQLAlchemy in one transaction. The two `Active` flags are
`tx.is_active` and `session.is_active` when the body gives control back. -/
structure SessionEnv where
  usesConnection : Bool := true
  begins : Reply := .ok ()
  txActive : Bool := true
  sessionActive : Bool := true
  commit : Reply := .ok ()
  txActiveAfterFailedCommit : Bool := false
  rollback : Reply := .ok ()

def rollbackAndRaise (connection : String) (active : Bool) (rollback : Reply) (e : PyExc) :
    Prog (List Effect) PyExc Unit := do
  Prog.when active (do
    Prog.ofExcept rollback
    emit (.rollback connection))
  Prog.raise e

/-- The part of `AIOSqlAlchemySessionInterceptor.intercept` after its yield. An
`Exception` is rolled back by the except clause, any other exception by leaving
`session.begin()`; a transaction the interceptor leaves open without an exception
is committed by leaving `session.begin()`. -/
def sessionAfter (connection : String) (env : SessionEnv) :
    Option PyExc → Prog (List Effect) PyExc Unit
  | some e => rollbackAndRaise connection env.txActive env.rollback e
  | none =>
    if env.txActive && env.sessionActive then
      Prog.tryExcept
        (do
          Prog.ofExcept env.commit
          emit (.commit connection))
        (rollbackAndRaise connection env.txActiveAfterFailedCommit env.rollback)
    else if env.txActive then do
      Prog.ofExcept env.commit
      emit (.commit connection)
    else pure ()

def aioSqlAlchemySessionInterceptor (connection : String) (env : SessionEnv) : Interceptor where
  intercept _ :=
    if env.usesConnection then
      Context.ofGenerator (Prog.ofExcept env.begins) (sessionAfter connection env)
    else Context.ofGenerator (pure ()) passThrough

structure CollectorDelayedMessageData where
  message : BusMessage
  instant : ℚ
  options : DelayOptions

structure MessagePublisherCollector where
  stagedMessages : List BusMessage := []
  stagedDelayedMessages : List CollectorDelayedMessageData := []

namespace MessagePublisherCollector

/-- `publish`, `delay` and `schedule` of the collector: everything is staged. -/
def stage (c : MessagePublisherCollector) : StageCall → MessagePublisherCollector
  | .publish m => { c with stagedMessages := c.stagedMessages ++ [m] }
  | .delay m seconds now options => { c with
      stagedDelayedMessages := c.stagedDelayedMessages ++ [⟨m, now + seconds, options⟩] }
  | .schedule m instant options => { c with
      stagedDelayedMessages := c.stagedDelayedMessages ++ [⟨m, instant, options⟩] }

def ofCalls (calls : List StageCall) : MessagePublisherCollector := calls.foldl stage {}

def hasMessages (c : MessagePublisherCollector) : Bool :=
  !c.stagedMessages.isEmpty || !c.stagedDelayedMessages.isEmpty

end MessagePublisherCollector

/-- The staged content of an `AIOPikaMessagePublisher`. -/
structure AIOPikaMessagePublisher where
  stagedMessages : List BusMessage := []
  stagedDelayedMessages : List DelayedMessageData := []

/-- `AIOPikaMessagePublisher.schedule`: the data it stages. -/
def scheduledData (d : CollectorDelayedMessageData) : DelayedMessageData where
  messageTopic := d.message.topic
  payload := d.message.body
  dispatchTime := truncate d.instant
  idempotencyKey := d.options.idempotencyKey
  payloadPolicy := d.options.payloadPolicy
  timePolicy := d.options.timePolicy

/-- `MessagePublisherCollector.fill` into a fresh publisher: `schedule` raises where
the publisher has no broker backend. -/
def MessagePublisherCollector.fill (c : MessagePublisherCollector) (hasBackend : Bool) :
    Except PyExc AIOPikaMessagePublisher :=
  if !c.stagedDelayedMessages.isEmpty && !hasBackend then
    .error (.error "NotImplementedError" "Schedule is not implemented for AIOPikaMessagePublisher")
  else .ok ⟨c.stagedMessages, c.stagedDelayedMessages.map scheduledData⟩

/-- The publish span of one message: off, or the trace context it injects and the
baggage it seeds where none is inherited. -/
inductive PublishSpan where
  | off
  | on (traceparent tracestate baggage : Option HeaderValue)

def injectHeader (h : Headers) (k : String) : Option HeaderValue → Headers
  | none => h
  | some v => h.set k v

/-- Injecting a header leaves the others alone. -/
theorem injectHeader_other (h : Headers) (v : Option HeaderValue) {k k' : String} (hne : k' ≠ k) :
    injectHeader h k v k' = h k' := by
  cases v with
  | none => rfl
  | some v => exact Headers.set_other h v hne

/-- `trace_message_publish`: the headers it yields. -/
def traceMessagePublish (implicit : Headers) : PublishSpan → Headers
  | .off => implicit
  | .on traceparent tracestate baggage =>
    let h := injectHeader (injectHeader implicit "traceparent" traceparent) "tracestate" tracestate
    if (h "baggage").isSome then h else injectHeader h "baggage" baggage

/-- The answers of the broker connection and of the broker backend to one flush. -/
structure ConnectionEnv where
  opens : Reply := .ok ()
  sends : Nat → Reply := fun _ => .ok ()
  commit : Reply := .ok ()
  span : Nat → PublishSpan := fun _ => .off
  hasBackend : Bool := true
  -- what the retry loop of `acquire_channel` lets through when its body raises
  surfaces : PyExc → PyExc := id

def genRoutingKey (topic : String) : String := topic ++ ".#"

/-- `AIOPikaMessagePublisher._publish`, with what is put on the exchange. -/
def outgoing (implicit : Headers) (span : PublishSpan) (m : BusMessage) : Outgoing where
  routingKey := genRoutingKey m.topic
  body := m.body
  headers := traceMessagePublish implicit span
  mandatory := m.isTask

/-- The delayed message as `flush` enqueues it: its headers, then those of the span
that are not None. -/
def withPublishHeaders (implicit : Headers) (span : PublishSpan) (d : DelayedMessageData) :
    DelayedMessageData :=
  { d with headers := some ((d.headers.getD Headers.empty).merge
      (fun k => (traceMessagePublish implicit span k).filter (· != .other "None"))) }

def publishAll (implicit : Headers) (env : ConnectionEnv) :
    Nat → List BusMessage → Prog (List Effect) PyExc Unit
  | _, [] => pure ()
  | n, m :: ms => do
    Prog.ofExcept (env.sends n)
    emit (.published (outgoing implicit (env.span n) m))
    publishAll implicit env (n + 1) ms

def scheduleAll (implicit : Headers) (env : ConnectionEnv) :
    Nat → List DelayedMessageData → Prog (List Effect) PyExc Unit
  | _, [] => pure ()
  | n, d :: ds => do
    Prog.ofExcept (env.sends n)
    emit (.scheduled (withPublishHeaders implicit (env.span n) d))
    scheduleAll implicit env (n + 1) ds

def flush (implicit : Headers) (env : ConnectionEnv) (p : AIOPikaMessagePublisher) :
    Prog (List Effect) PyExc Unit := do
  publishAll implicit env 0 p.stagedMessages
  Prog.when (!p.stagedDelayedMessages.isEmpty && !env.hasBackend)
    (Prog.raise (.error "NotImplementedError"
      "MessageBrokerBackend is required to publish delayed messages"))
  scheduleAll implicit env p.stagedMessages.length p.stagedDelayedMessages

/-- `AIOPikaConnectionFactory.provide_connection` around `body`. -/
def provideConnection (env : ConnectionEnv) (body : Prog (List Effect) PyExc Unit) :
    Prog (List Effect) PyExc Unit := do
  Prog.ofExcept env.opens
  Prog.tryExcept
    (Prog.catching PyExc.isException
      (do
        body
        Prog.ofExcept env.commit
        emit .busCommit)
      (fun e => do
        emit .busRollback
        Prog.raise e))
    (fun e => Prog.raise (env.surfaces e))

/-- The part of `MessageBusPublisherInterceptor.intercept` after its yield, in a
transaction that is not a websocket one. Without `open_connection_at_end_of_transaction`
the connection is opened after the yield and its publisher has nothing staged. -/
def publisherAfter (atEnd : Bool) (env : ConnectionEnv) (t : Transaction) :
    Option PyExc → Prog (List Effect) PyExc Unit
  | some e => Prog.raise e
  | none =>
    let collector := MessagePublisherCollector.ofCalls t.staged
    if atEnd then
      if collector.hasMessages then
        provideConnection env (do
          let publisher ← Prog.ofExcept (collector.fill env.hasBackend)
          flush t.implicit env publisher)
      else pure ()
    else provideConnection env (flush t.implicit env {})

def messageBusPublisherInterceptor (atEnd : Bool) (env : ConnectionEnv) : Interceptor where
  intercept t := Context.ofGenerator (pure ()) (publisherAfter atEnd env t)

/-- The headers `root_setup` of the tracing provider adds to the implicit ones. -/
structure TracingHeaders where
  traceparent : Option HeaderValue
  tracestate : Option HeaderValue
  baggage : Option HeaderValue

def TracingHeaders.headers (t : TracingHeaders) : Headers :=
  injectHeader (injectHeader (injectHeader Headers.empty "traceparent" t.traceparent)
    "tracestate" t.tracestate) "baggage" t.baggage

/-- `ObservabilityInterceptor` over the tracing provider. -/
def observabilityInterceptor (t : TracingHeaders) : Interceptor where
  provides := t.headers
  intercept _ := Context.ofGenerator (pure ()) passThrough

/-- A websocket message of the body, encoded as `WebSocketConnectionManagerImpl.send` encodes it. -/
structure WebSocketMessage where
  rooms : List String
  message : Bytes

/-- The answers of the websocket backend to one flush. -/
structure WebSocketEnv where
  sends : Nat → Reply := fun _ => .ok ()

/-- `StagingWebSocketMessageSender.flush`, from the `n`-th message on. -/
def sendAll (env : WebSocketEnv) : Nat → List WebSocketMessage → Prog (List Effect) PyExc Unit
  | _, [] => pure ()
  | n, m :: ms => do
    Prog.ofExcept (env.sends n)
    emit (.sent m.rooms m.message)
    sendAll env (n + 1) ms

/-- `WebSocketInterceptor`, in a transaction whose body stages `staged`. -/
def webSocketInterceptor (env : WebSocketEnv) (staged : List WebSocketMessage) : Interceptor where
  intercept _ := Context.ofGenerator (pure ()) fun
    | none => sendAll env 0 staged
    | some e => Prog.raise e

/-- A failed session is rolled back where it still can be, and never committed. -/
theorem session_exit_failed (connection : String) (env : SessionEnv) (t : Transaction) (e : PyExc) :
    (((aioSqlAlchemySessionInterceptor connection env).intercept t).exit (some e)).2 =
      if env.usesConnection = true ∧ env.txActive = true ∧ env.rollback = .ok () then
        [.rollback connection] else [] := by
  cases hu : env.usesConnection with
  | false =>
    simp [aioSqlAlchemySessionInterceptor, hu, Context.ofGenerator_exit_effects, passThrough]
  | true =>
    simp only [aioSqlAlchemySessionInterceptor, hu, if_true, Context.ofGenerator_exit_effects,
      sessionAfter, rollbackAndRaise]
    cases ha : env.txActive with
    | false => simp [Prog.bind_run]
    | true =>
      cases hr : env.rollback with
      | ok u => simp [Prog.bind_run, emit]
      | error e' => simp [Prog.bind_run]

/-- A publisher that is exited with an exception sends nothing. -/
theorem publisher_exit_failed (atEnd : Bool) (env : ConnectionEnv) (t : Transaction) (e : PyExc) :
    (((messageBusPublisherInterceptor atEnd env).intercept t).exit (some e)).2 = [] := by
  simp [messageBusPublisherInterceptor, Context.ofGenerator_exit_effects, publisherAfter]

theorem session_enter_effects (connection : String) (env : SessionEnv) (t : Transaction) :
    ((aioSqlAlchemySessionInterceptor connection env).intercept t).enter.2 = [] := by
  cases hu : env.usesConnection <;>
    simp [aioSqlAlchemySessionInterceptor, hu, Context.ofGenerator]

theorem publisher_enter_effects (atEnd : Bool) (env : ConnectionEnv) (t : Transaction) :
    ((messageBusPublisherInterceptor atEnd env).intercept t).enter.2 = [] := rfl

/-- The context an interceptor contributes. -/
theorem interceptAll_getElem? {staged : List StageCall} {interceptors : List Interceptor} {p : Nat}
    {i : Interceptor} (h : interceptors[p]? = some i) (implicit : Headers) :
    (interceptAll staged implicit interceptors)[p]? =
      some (i.intercept ⟨implicitInside implicit (interceptors.take p), staged⟩) := by
  induction interceptors generalizing p implicit with
  | nil => simp at h
  | cons j js ih =>
    cases p with
    | zero =>
      have hj : j = i := by simpa using h
      simp [interceptAll, hj, implicitInside]
    | succ p =>
      rw [List.getElem?_cons_succ] at h
      rw [interceptAll, List.getElem?_cons_succ, ih h]
      rfl

/-- The context of an interceptor stands one place further in, after the container. -/
theorem contextsOf_getElem? (staged : List StageCall) {interceptors : List Interceptor} {p : Nat}
    {i : Interceptor} (h : interceptors[p]? = some i) (implicit : Headers) :
    (contextsOf implicit staged interceptors)[p + 1]? =
      some (i.intercept ⟨implicitInside implicit (interceptors.take p), staged⟩) := by
  rw [contextsOf, List.getElem?_cons_succ, interceptAll_getElem? h]

end Interceptors

import Jararaca.RetryLineage

/-!
# Flows of transactions

What `root_setup` of the tracing provider makes of the incoming headers, what a publish span
sends on, and what follows for a chain of transactions, each caused by a message of the one
before: sent at once, delayed, or a retry copy.
-/
namespace TraceFlows

open Messages Interceptors Worker RetryLineage

/-! ## Contexts and propagators -/

structure SpanContext where
  traceId : Nat
  spanId : Nat
  traceState : String
  deriving DecidableEq, Repr

def SpanContext.invalid : SpanContext := ⟨0, 0, ""⟩

def validTraceId (n : Nat) : Bool := decide (0 < n) && decide (n < 2 ^ 128)

def validSpanId (n : Nat) : Bool := decide (0 < n) && decide (n < 2 ^ 64)

def SpanContext.isValid (c : SpanContext) : Bool := validTraceId c.traceId && validSpanId c.spanId

/-- Ids that the generator draws, of a trace and of a span. -/
structure Ids where
  traceId : Nat
  spanId : Nat
  validTrace : validTraceId traceId = true
  validSpan : validSpanId spanId = true

abbrev Baggage := String → Option String

def Baggage.empty : Baggage := fun _ => none

def Baggage.set (b : Baggage) (key value : String) : Baggage := Function.update b key (some value)

/-- What `set_baggage` leaves for every entry of another baggage. -/
def Baggage.setAll (b more : Baggage) : Baggage := fun key => (more key).or (b key)

/-- A context of OpenTelemetry: its span, whether that is recording, and its baggage. -/
structure TraceContext where
  span : SpanContext := SpanContext.invalid
  recording : Bool := false
  baggage : Baggage := Baggage.empty

/-- The two W3C propagators and the formats of ids. `readTrace` is none where the headers hold no
valid context. -/
structure Telemetry where
  traceparent : SpanContext → String
  tracestate : SpanContext → Option String
  readTrace : Option HeaderValue → Option HeaderValue → Option SpanContext
  baggage : Baggage → String
  readBaggage : HeaderValue → Baggage
  formatTraceId : Nat → String
  formatSpanId : Nat → String

/-- What the propagator writes of a valid span it reads with the same ids. -/
def Telemetry.ReadsBack (t : Telemetry) : Prop :=
  ∀ c state, c.isValid = true → ∃ c', t.readTrace (some (.str (t.traceparent c))) state = some c' ∧
    c'.traceId = c.traceId ∧ c'.spanId = c.spanId

/-- A baggage within the limits of the format. -/
def Telemetry.Carries (t : Telemetry) (b : Baggage) : Prop := t.readBaggage (.str (t.baggage b)) = b

variable (t : Telemetry)

/-- `TraceContextTextMapPropagator().inject`: both headers, or none of an invalid span. -/
def injectTrace (c : SpanContext) : Option HeaderValue × Option HeaderValue :=
  if c = .invalid then (none, none) else (some (.str (t.traceparent c)), (t.tracestate c).map .str)

/-- `tracer.start_as_current_span` in a context. -/
def startSpan (context : TraceContext) (drawn : Ids) : SpanContext :=
  if context.span.isValid then ⟨context.span.traceId, drawn.spanId, context.span.traceState⟩
  else ⟨drawn.traceId, drawn.spanId, ""⟩

def flowIdBaggageKey : String := "flow.id"

/-! ## Transactions -/

inductive ContextType where
  | http | messageBus | websocket | scheduler
  deriving DecidableEq, Repr

inductive TraceBoundary where
  | child | link
  deriving DecidableEq, Repr

/-- `TRACE_BOUNDARY` of a message type. -/
inductive BoundaryPolicy where
  | default | child | link
  deriving DecidableEq, Repr

/-- What tracing reads of the environment. -/
structure Config where
  asyncBoundary : TraceBoundary
  asyncBoundaryOnRetry : TraceBoundary
  publishSpan : Bool

/-- What `root_setup` reads of the transaction; a scheduled action has no headers. -/
structure TransactionData where
  contextType : ContextType
  headers : Headers
  policy : BoundaryPolicy := .default
  processingAttempt : Int := 1

variable (config : Config)

def resolveTraceBoundary (tx : TransactionData) : TraceBoundary :=
  match tx.contextType, tx.policy with
  | .messageBus, .child => .child
  | .messageBus, .link => .link
  | .messageBus, .default => if 1 < tx.processingAttempt then config.asyncBoundaryOnRetry
    else config.asyncBoundary
  | _, _ => .child

/-- The headers whose name begins with one of the words, in whatever case. -/
def carrier (words : List String) (headers : Headers) : Headers := fun key =>
  if words.any fun w => w.toList.isPrefixOf (key.toList.map Char.toLower) then headers key else none

/-- What `root_setup` leaves: the root span with what it was started from, the id of the flow as
its attribute, the attributes for the parent of the flow, and the headers it provides. -/
structure RootSetup where
  boundary : TraceBoundary
  span : SpanContext
  parent : Option SpanContext
  links : List SpanContext
  flowParent : Option (String × String)
  flowId : String
  baggage : Baggage
  tracingHeaders : TracingHeaders

/-- The context that `root_setup` finds: the one around it where that has a recording span. -/
def incomingContext (ambient : TraceContext) (headers : Headers) : TraceContext :=
  if ambient.span.isValid && ambient.recording then ambient
  else
    let trace := carrier ["traceparent", "tracestate"] headers
    let baggage := carrier ["baggage"] headers
    { span := (t.readTrace (trace "traceparent") (trace "tracestate")).getD .invalid
      baggage := ((baggage "baggage").map t.readBaggage).getD Baggage.empty }

def rootSetup (ambient : TraceContext) (drawn : Ids) (tx : TransactionData) : RootSetup :=
  let headers := if tx.contextType = .scheduler then Headers.empty else tx.headers
  let instrumented := ambient.span.isValid && ambient.recording
  let incoming := incomingContext t ambient headers
  let boundary := resolveTraceBoundary config tx
  let cut := decide (boundary = .link) && incoming.span.isValid
  let start := if cut then { incoming with span := .invalid } else incoming
  let span := if instrumented then ambient.span else startSpan start drawn
  let flowId := (incoming.baggage flowIdBaggageKey).getD (t.formatTraceId span.traceId)
  let baggage := (ambient.baggage.setAll incoming.baggage).set flowIdBaggageKey flowId
  let injected := injectTrace t span
  { boundary := boundary
    span := span
    parent := if instrumented || !start.span.isValid then none else some start.span
    links := if cut && !instrumented then [incoming.span] else []
    flowParent := if cut then
      some (t.formatTraceId incoming.span.traceId, t.formatSpanId incoming.span.spanId) else none
    flowId := flowId
    baggage := baggage
    tracingHeaders := ⟨injected.1, injected.2, some (.str (t.baggage baggage))⟩ }

/-- `trace_message_publish` in a context, with the id of the flow it is in. -/
def publishSpan (context : TraceContext) (flowId : Option String) (drawn : Ids) : PublishSpan :=
  if config.publishSpan then
    let span := startSpan context drawn
    let injected := injectTrace t span
    .on injected.1 injected.2 (some (.str (t.baggage
      (context.baggage.set flowIdBaggageKey (orElse flowId (t.formatTraceId span.traceId))))))
  else .off

/-- A transaction under way, with the delivery of a bus transaction. -/
structure Tx where
  root : RootSetup
  implicit : Headers
  ambient : TraceContext
  delivery : Option Delivery

/-- `root_setup`, and the headers in force inside of it. -/
def enter (ambient : TraceContext) (drawn : Ids) (tx : TransactionData) (provided : Headers)
    (delivery : Option Delivery) : Tx :=
  let root := rootSetup t config ambient drawn tx
  { root := root
    implicit := provided.merge root.tracingHeaders.headers
    ambient := ambient
    delivery := delivery }

/-- `handle_message` of a delivery, up to the body of the transaction. -/
def consume (drawn : Ids) (policy : BoundaryPolicy) (d : Delivery) (retryCount : Int) : Tx :=
  enter t config {} drawn ⟨.messageBus, d.headers.scalars, policy, retryCount + 1⟩
    d.headers.scalars (some d)

def Tx.context (s : Tx) : TraceContext := ⟨s.root.span, true, s.ambient.baggage⟩

/-- The span whose context a message of the transaction carries. -/
def Tx.handoff (s : Tx) (drawn : Ids) : SpanContext :=
  if config.publishSpan then startSpan s.context drawn else s.root.span

/-- What is delivered of a transaction, with the span it was handed over by: a message published,
a message staged for later that the beat worker dispatched, or the retry copy of its delivery. -/
inductive Sent (s : Tx) : Delivery → SpanContext → Prop where
  | published (drawn : Ids) (m : BusMessage) (d : Delivery)
      (hd : d.headers = (outgoing s.implicit
        (publishSpan t config s.context (some s.root.flowId) drawn) m).headers) :
      Sent s d (s.handoff config drawn)
  | delayed (drawn : Ids) (m : DelayedMessageData) (hm : m.headers = none) :
      Sent s (dispatched (withPublishHeaders s.implicit
        (publishSpan t config s.context (some s.root.flowId) drawn) m)) (s.handoff config drawn)
  | retried (spec : HandlerSpec) (msg : Delivery) (hmsg : s.delivery = some msg) (n time : Int)
      (lastError : Option String) (env : SettleEnv)
      (htrace : env.extra "traceparent" = none) (hbaggage : env.extra "baggage" = none) :
      Sent s (dispatched (retryCopy spec msg s.implicit n time lastError env)) s.root.span

/-- The second transaction handles a message of the first, which the span handed over. -/
inductive Causes (s : Tx) (handoff : SpanContext) : Tx → Prop where
  | intro (d : Delivery) (hsent : Sent t config s d handoff) (n : Int)
      (hn : getRetryCount d.headers = some n)
      (drawn : Ids) (policy : BoundaryPolicy) :
      Causes s handoff (consume t config drawn policy d n)

/-! ## What a message carries -/

/-- Two contexts of one span; the trace state may differ. -/
def SameSpan (a b : SpanContext) : Prop := a.traceId = b.traceId ∧ a.spanId = b.spanId

theorem SameSpan.isValid {a b : SpanContext} (h : SameSpan a b) : a.isValid = b.isValid := by
  rw [SpanContext.isValid, SpanContext.isValid, h.1, h.2]

theorem ne_invalid {c : SpanContext} (h : c.isValid = true) : c ≠ .invalid := by
  rintro rfl
  exact absurd h (by decide)

@[simp] theorem carrier_traceparent (h : Headers) :
    carrier ["traceparent", "tracestate"] h "traceparent" = h "traceparent" := if_pos (by decide)

@[simp] theorem carrier_tracestate (h : Headers) :
    carrier ["traceparent", "tracestate"] h "tracestate" = h "tracestate" := if_pos (by decide)

@[simp] theorem carrier_baggage (h : Headers) : carrier ["baggage"] h "baggage" = h "baggage" :=
  if_pos (by decide)

theorem startSpan_valid (context : TraceContext) (drawn : Ids) :
    (startSpan context drawn).isValid = true := by
  unfold startSpan
  split
  · rename_i hvalid
    have htrace : validTraceId context.span.traceId = true := (Bool.and_eq_true _ _ ▸ hvalid).1
    rw [SpanContext.isValid, htrace, drawn.validSpan]
    rfl
  · rw [SpanContext.isValid, drawn.validTrace, drawn.validSpan]
    rfl

theorem startSpan_traceId {context : TraceContext} (h : context.span.isValid = true) (drawn : Ids) :
    (startSpan context drawn).traceId = context.span.traceId := by
  simp [startSpan, h]

/-- What holds inside of a transaction: its root span and its baggage are in the headers in force,
and the id of the flow is in the baggage. -/
structure Traced (s : Tx) : Prop where
  valid : s.root.span.isValid = true
  traceparent : s.implicit "traceparent" = some (.str (t.traceparent s.root.span))
  baggage : s.implicit "baggage" = some (.str (t.baggage s.root.baggage))
  flow : s.root.baggage flowIdBaggageKey = some s.root.flowId

variable {t config}

theorem injectTrace_traceparent {c : SpanContext} (h : c.isValid = true) :
    (injectTrace t c).1 = some (.str (t.traceparent c)) := by
  rw [injectTrace, if_neg (ne_invalid h)]

theorem tracingHeaders_traceparent (x y z : Option HeaderValue) :
    (TracingHeaders.mk x y z).headers "traceparent" = x := by
  cases x <;> cases y <;> cases z <;> rfl

theorem tracingHeaders_baggage (x y z : Option HeaderValue) :
    (TracingHeaders.mk x y z).headers "baggage" = z := by
  cases x <;> cases y <;> cases z <;> rfl

/-- A transaction is traced from its entry. -/
theorem enter_traced (ambient : TraceContext) (drawn : Ids)
    (tx : TransactionData) (provided : Headers) (delivery : Option Delivery) :
    Traced t (enter t config ambient drawn tx provided delivery) := by
  have hvalid : (enter t config ambient drawn tx provided delivery).root.span.isValid = true := by
    simp only [enter, rootSetup]
    split
    · rename_i h
      exact (Bool.and_eq_true _ _ ▸ h).1
    · exact startSpan_valid _ drawn
  refine ⟨hvalid, ?_, ?_, ?_⟩
  · have hinject := injectTrace_traceparent (t := t) hvalid
    simp only [enter, rootSetup] at hinject ⊢
    rw [Headers.merge_apply, tracingHeaders_traceparent, hinject]
    rfl
  · simp only [enter, rootSetup]
    rw [Headers.merge_apply, tracingHeaders_baggage]
    rfl
  · simp [enter, rootSetup, Baggage.set]

variable (config) in
/-- The publish span leaves the baggage that is in force, and is the parent that is sent on. -/
theorem publish_headers {s : Tx} (h : Traced t s) (drawn : Ids) :
    traceMessagePublish s.implicit
      (publishSpan t config s.context (some s.root.flowId) drawn) "baggage" =
        some (.str (t.baggage s.root.baggage)) ∧
      traceMessagePublish s.implicit
        (publishSpan t config s.context (some s.root.flowId) drawn) "traceparent" =
        some (.str (t.traceparent (s.handoff config drawn))) := by
  unfold publishSpan Tx.handoff
  cases hspan : config.publishSpan with
  | false => exact ⟨h.baggage, h.traceparent⟩
  | true =>
    have hvalid : (startSpan s.context drawn).isValid = true := startSpan_valid _ drawn
    have hkept : ∀ x y : Option HeaderValue,
        injectHeader (injectHeader s.implicit "traceparent" x) "tracestate" y "baggage" =
          s.implicit "baggage" := by
      intro x y
      rw [injectHeader_other _ _ (by decide), injectHeader_other _ _ (by decide)]
    simp only [if_true, traceMessagePublish, hkept, h.baggage, Option.isSome_some]
    refine ⟨trivial, ?_⟩
    rw [injectHeader_other _ _ (by decide), injectTrace_traceparent hvalid]
    exact Headers.set_same _ _ _

variable (config) in
theorem handoff_traceId {s : Tx} (h : Traced t s) (drawn : Ids) :
    (s.handoff config drawn).isValid = true ∧
      (s.handoff config drawn).traceId = s.root.span.traceId := by
  unfold Tx.handoff
  split
  · exact ⟨startSpan_valid _ drawn, startSpan_traceId h.valid drawn⟩
  · exact ⟨h.valid, rfl⟩

/-- What a delivery says of the transaction it comes from. -/
structure Carried (t : Telemetry) (s : Tx) (d : Delivery) (handoff : SpanContext) : Prop where
  traceparent : d.headers "traceparent" = some (.str (t.traceparent handoff))
  baggage : d.headers "baggage" = some (.str (t.baggage s.root.baggage))
  valid : handoff.isValid = true
  trace : handoff.traceId = s.root.span.traceId

/-- However a message is sent, it carries the baggage of its transaction and a span of its trace. -/
theorem Sent.carried {s : Tx} (h : Traced t s) {d : Delivery} {handoff : SpanContext}
    (hsent : Sent t config s d handoff) : Carried t s d handoff := by
  cases hsent with
  | published drawn m d hd =>
    obtain ⟨hbaggage, htrace⟩ := publish_headers config h drawn
    obtain ⟨hvalid, hsame⟩ := handoff_traceId config h drawn
    exact ⟨by rw [hd]; exact htrace, by rw [hd]; exact hbaggage, hvalid, hsame⟩
  | delayed drawn m hm =>
    obtain ⟨hbaggage, htrace⟩ := publish_headers config h drawn
    obtain ⟨hvalid, hsame⟩ := handoff_traceId config h drawn
    have hheaders : ∀ k v, traceMessagePublish s.implicit
        (publishSpan t config s.context (some s.root.flowId) drawn) k = some (.str v) →
        (dispatched (withPublishHeaders s.implicit
          (publishSpan t config s.context (some s.root.flowId) drawn) m)).headers k =
            some (.str v) := by
      intro k v hk
      simp [dispatched, withPublishHeaders, hm, hk, Headers.empty]
    exact ⟨hheaders _ _ htrace, hheaders _ _ hbaggage, hvalid, hsame⟩
  | retried spec msg hmsg n time lastError env htrace hbaggage =>
    have hheaders : ∀ k v, k ≠ xRetryCount → k ≠ xLastError → env.extra k = none →
        s.implicit k = some (.str v) →
        (dispatched (retryCopy spec msg s.implicit n time lastError env)).headers k =
          some (.str v) := by
      intro k v hcount herror hextra hk
      have hmerged : (msg.headers.scalars.merge fun k => (s.implicit.merge env.extra k).filter
          (· != .other "None")) k = some (.str v) := by simp [hextra, hk]
      simp only [dispatched, retryCopy, Option.getD_some, retryHeaders]
      cases lastError with
      | none => simp only [Headers.set_other _ _ hcount, hmerged]
      | some e => simp only [Headers.set_other _ _ herror, Headers.set_other _ _ hcount, hmerged]
    exact ⟨hheaders _ _ (by decide) (by decide) htrace h.traceparent,
      hheaders _ _ (by decide) (by decide) hbaggage h.baggage, h.valid, rfl⟩

/-! ## A transaction and its cause -/

theorem scalars_str {h : Headers} {k v : String} (hk : h k = some (.str v)) :
    h.scalars k = some (.str v) := by
  simp [Headers.scalars, hk, HeaderValue.isScalar]

/-- What the transaction of a message has of the one that sent it. -/
structure Continues (t : Telemetry) (s : Tx) (handoff : SpanContext) (s' : Tx) : Prop where
  flowId : s'.root.flowId = s.root.flowId
  baggage : s'.root.baggage = s.root.baggage
  child : s'.root.boundary = .child → s'.root.span.traceId = s.root.span.traceId ∧
    (∃ p, SameSpan p handoff ∧ s'.root.parent = some p) ∧ s'.root.links = [] ∧
      s'.root.flowParent = none
  link : s'.root.boundary = .link →
    s'.root.parent = none ∧ (∃ p, SameSpan p handoff ∧ s'.root.links = [p]) ∧
    s'.root.flowParent = some (t.formatTraceId s.root.span.traceId, t.formatSpanId handoff.spanId)

/-- A consumer goes on in the flow of the message, as parent or as link by the policy. -/
theorem consume_continues (hreads : t.ReadsBack) {s : Tx} (h : Traced t s)
    (hcarries : t.Carries s.root.baggage)
    {d : Delivery} {handoff : SpanContext} (hd : Carried t s d handoff) (drawn : Ids)
    (policy : BoundaryPolicy)
    (n : Int) : Continues t s handoff (consume t config drawn policy d n) := by
  obtain ⟨p, hread, htrace, hspan⟩ := hreads handoff (d.headers.scalars "tracestate") hd.valid
  have hincoming :
      incomingContext t {} d.headers.scalars = { span := p, baggage := s.root.baggage } := by
    have hnone : SpanContext.invalid.isValid = false := rfl
    have hbaggage : t.readBaggage (.str (t.baggage s.root.baggage)) = s.root.baggage := hcarries
    simp [incomingContext, hnone, scalars_str hd.traceparent, scalars_str hd.baggage,
      hread, hbaggage]
  have hvalid : p.isValid = true := (SameSpan.isValid ⟨htrace, hspan⟩).trans hd.valid
  have hempty : Baggage.empty.setAll s.root.baggage = s.root.baggage := by
    funext k
    simp [Baggage.setAll, Baggage.empty]
  have hset : s.root.baggage.set flowIdBaggageKey s.root.flowId = s.root.baggage := by
    funext k
    rw [Baggage.set, Function.update_apply]
    split
    · rename_i hk
      rw [hk, h.flow]
    · rfl
  have hnone : SpanContext.invalid.isValid = false := rfl
  constructor
  case flowId => simp [consume, enter, rootSetup, hincoming, h.flow]
  case baggage => simp [consume, enter, rootSetup, hincoming, h.flow, hempty, hset]
  case child =>
    intro hchild
    have hboundary :
        resolveTraceBoundary config ⟨.messageBus, d.headers.scalars, policy, n + 1⟩ = .child :=
        hchild
    refine ⟨?_, ⟨p, ⟨htrace, hspan⟩, ?_⟩, ?_, ?_⟩
    · simp [consume, enter, rootSetup, hincoming, hboundary, hnone, startSpan, hvalid,
        htrace, hd.trace]
    · simp [consume, enter, rootSetup, hincoming, hboundary, hnone, hvalid]
    · simp [consume, enter, rootSetup, hboundary]
    · simp [consume, enter, rootSetup, hboundary]
  case link =>
    intro hlink
    have hboundary :
        resolveTraceBoundary config ⟨.messageBus, d.headers.scalars, policy, n + 1⟩ = .link := hlink
    refine ⟨?_, ⟨p, ⟨htrace, hspan⟩, ?_⟩, ?_⟩
    · simp [consume, enter, rootSetup, hincoming, hboundary, hnone, hvalid]
    · simp [consume, enter, rootSetup, hincoming, hboundary, hnone, hvalid]
    · simp [consume, enter, rootSetup, hincoming, hboundary, hvalid, htrace, hspan, hd.trace]

/-- One message on: the invariant of the flow, and what the spans say of each other. -/
theorem Causes.step (hreads : t.ReadsBack) {s s' : Tx} {handoff : SpanContext} (h : Traced t s)
    (hcarries : t.Carries s.root.baggage) (hcauses : Causes t config s handoff s') :
    Traced t s' ∧ Continues t s handoff s' := by
  obtain ⟨d, hsent, n, hn, drawn, policy⟩ := hcauses
  exact ⟨enter_traced {} drawn _ _ _,
    consume_continues hreads h hcarries (hsent.carried h) drawn policy n⟩

/-! ## The formats -/

def hexDigits : Nat → Nat → List Char
  | 0, _ => []
  | width + 1, n => hexDigits width (n / 16) ++ [Nat.digitChar (n % 16)]

def hexDigit (c : Char) : Nat :=
  if c.toNat ≤ '9'.toNat then c.toNat - '0'.toNat else c.toNat - 'a'.toNat + 10

def hexValue (digits : List Char) : Nat := digits.foldl (fun value c => 16 * value + hexDigit c) 0

theorem hexDigit_digitChar : ∀ d : Fin 16, hexDigit (Nat.digitChar d) = d := by decide

theorem hexDigits_length (width n : Nat) : (hexDigits width n).length = width := by
  induction width generalizing n with
  | zero => rfl
  | succ width ih => simp [hexDigits, ih]

/-- Hexadecimal digits are read back. -/
theorem hexValue_hexDigits {width n : Nat} (h : n < 16 ^ width) :
    hexValue (hexDigits width n) = n := by
  induction width generalizing n with
  | zero =>
    have hzero : n = 0 := by omega
    simp [hexDigits, hexValue, hzero]
  | succ width ih =>
    have hquotient : n / 16 < 16 ^ width := by
      rw [Nat.div_lt_iff_lt_mul (by decide)]
      rwa [pow_succ] at h
    have hlast := hexDigit_digitChar ⟨n % 16, Nat.mod_lt n (by decide)⟩
    have hrest := ih hquotient
    simp only [hexValue] at hrest
    simp only [hexValue, hexDigits, List.foldl_append, hrest, List.foldl_cons,
      List.foldl_nil, hlast]
    omega

/-- A `traceparent` of version 00, sampled. -/
def formatTraceparent (c : SpanContext) : String :=
  String.ofList (['0', '0',
    '-'] ++ hexDigits 32 c.traceId ++ ['-'] ++ hexDigits 16 c.spanId ++ ['-', '0', '1'])

def readTraceparent : Option HeaderValue → Option HeaderValue → Option SpanContext
  | some (.str s), state =>
    let c : SpanContext :=
      ⟨hexValue ((s.toList.drop 3).take 32), hexValue ((s.toList.drop 36).take 16),
      match state with | some (.str text) => text | _ => ""⟩
    if ['0', '0', '-'].isPrefixOf s.toList && c.isValid then some c else none
  | _, _ => none

/-- The formats, with a baggage of the id of the flow only. -/
def w3c : Telemetry where
  traceparent := formatTraceparent
  tracestate c := if c.traceState = "" then none else some c.traceState
  readTrace := readTraceparent
  baggage b := "flow.id=" ++ (b flowIdBaggageKey).getD ""
  readBaggage
    | .str s => Baggage.empty.set flowIdBaggageKey (String.ofList (s.toList.drop 8))
    | _ => Baggage.empty
  formatTraceId n := String.ofList (hexDigits 32 n)
  formatSpanId n := String.ofList (hexDigits 16 n)

/-- The W3C propagator reads back what it writes. -/
theorem w3c_readsBack : w3c.ReadsBack := by
  intro c state hvalid
  have hids : (0 < c.traceId ∧ c.traceId < 2 ^ 128) ∧ 0 < c.spanId ∧ c.spanId < 2 ^ 64 := by
    simpa [SpanContext.isValid, validTraceId, validSpanId] using hvalid
  have htrace : hexValue (hexDigits 32 c.traceId) = c.traceId :=
    hexValue_hexDigits (by norm_num; exact hids.1.2)
  have hspan : hexValue (hexDigits 16 c.spanId) = c.spanId :=
    hexValue_hexDigits (by norm_num; exact hids.2.2)
  have hfirst : (((formatTraceparent c).toList.drop 3).take 32) = hexDigits 32 c.traceId := by
    simp [formatTraceparent, hexDigits_length]
  have hsecond : (((formatTraceparent c).toList.drop 36).take 16) = hexDigits 16 c.spanId := by
    simp [formatTraceparent, List.drop_append, List.take_append, hexDigits_length]
  have hprefix : ['0', '0', '-'].isPrefixOf (formatTraceparent c).toList = true := by
    simp [formatTraceparent]
  refine ⟨⟨c.traceId, c.spanId, match state with | some (.str text) => text | _ => ""⟩,
    ?_, rfl, rfl⟩
  simp only [w3c, readTraceparent, hfirst, hsecond, htrace, hspan, hprefix, Bool.true_and]
  exact if_pos hvalid

/-- Ids with small numbers. -/
def drawnIds (n : Fin 100) : Ids where
  traceId := n + 1
  spanId := n + 1
  validTrace := by
    have hbound := n.isLt
    simp only [validTraceId, Bool.and_eq_true, decide_eq_true_eq]
    omega
  validSpan := by
    have hbound := n.isLt
    simp only [validSpanId, Bool.and_eq_true, decide_eq_true_eq]
    omega

/-! ## Flows -/

variable (t config) in
/-- Every transaction of the list handles a message of the one before it. -/
def Flow (s : Tx) (txs : List Tx) : Prop :=
  List.IsChain (fun s s' => ∃ handoff, Causes t config s handoff s') (s :: txs)

/-- The transaction that began the trace: the last one behind a link, or the first. -/
def traceStart (s : Tx) : List Tx → Tx
  | [] => s
  | x :: xs => traceStart (match x.root.boundary with | .link => x | .child => s) xs

/-- Every transaction of a flow is in the flow of the first. -/
theorem flow_run (hreads : t.ReadsBack) {s start : Tx} {txs : List Tx} (h : Traced t s)
    (hcarries : t.Carries s.root.baggage) (hflow : Flow t config s txs)
    (hstart : start.root.span.traceId = s.root.span.traceId) :
    (∀ x ∈ txs, x.root.flowId = s.root.flowId) ∧
      (txs.getLastD s).root.span.traceId = (traceStart start txs).root.span.traceId := by
  induction txs generalizing s start with
  | nil => exact ⟨fun x hx => absurd hx List.not_mem_nil, hstart.symm⟩
  | cons x xs ih =>
    obtain ⟨⟨handoff, hcauses⟩, hrest⟩ := List.isChain_cons_cons.mp hflow
    obtain ⟨hx, hcont⟩ := hcauses.step hreads h hcarries
    have hbegan : (match x.root.boundary with | .link => x | .child => start).root.span.traceId =
        x.root.span.traceId := by
      cases hboundary : x.root.boundary with
      | link => rfl
      | child => exact hstart.trans (hcont.child hboundary).1.symm
    obtain ⟨hids, hlast⟩ := ih hx (hcont.baggage ▸ hcarries) hrest hbegan
    refine ⟨?_, ?_⟩
    · intro y hy
      obtain rfl | hy := List.mem_cons.mp hy
      · exact hcont.flowId
      · exact (hids y hy).trans hcont.flowId
    · rw [List.getLastD_cons]
      exact hlast

/-- However a flow goes on from a first transaction of any kind: all its transactions have the id of
the first, and each is in the trace that the last link before it began. -/
theorem flow_keeps_id (hreads : t.ReadsBack) (ambient : TraceContext) (drawn : Ids)
    (tx : TransactionData) (provided : Headers) (delivery : Option Delivery)
    (hcarries : t.Carries (enter t config ambient drawn tx provided delivery).root.baggage)
    (txs : List Tx)
    (hflow : Flow t config (enter t config ambient drawn tx provided delivery) txs) :
    (∀ x ∈ txs, x.root.flowId = (enter t config ambient drawn tx provided delivery).root.flowId) ∧
      (txs.getLastD (enter t config ambient drawn tx provided delivery)).root.span.traceId =
        (traceStart (enter t config ambient drawn tx provided delivery) txs).root.span.traceId :=
  flow_run hreads (enter_traced ambient drawn tx provided delivery) hcarries hflow rfl

/-- A first transaction, two messages of it, and the transactions of these. -/
def request : Tx :=
  enter w3c ⟨.link, .link, true⟩ {}
  (drawnIds 1) ⟨.http, Headers.empty, .default, 1⟩ Headers.empty none

def created : Delivery where
  body := []
  headers := (outgoing request.implicit (publishSpan w3c ⟨.link, .link, true⟩ request.context
    (some request.root.flowId) (drawnIds 2)) ⟨"user.created", [], false⟩).headers
  messageId := none
  contentType := none
  contentEncoding := none

def onCreated : Tx := consume w3c ⟨.link, .link, true⟩ (drawnIds 3) .default created 0

def welcome : DelayedMessageData where
  messageTopic := "user.welcome"
  dispatchTime := 0
  payload := []

def welcomed : Delivery := dispatched (withPublishHeaders onCreated.implicit
  (publishSpan w3c ⟨.link, .link, true⟩ onCreated.context (some onCreated.root.flowId)
    (drawnIds 4)) welcome)

def onWelcome : Tx := consume w3c ⟨.link, .link, true⟩ (drawnIds 5) .child welcomed 0

theorem welcome_flow : Flow w3c ⟨.link, .link, true⟩ request [onCreated, onWelcome] := by
  have hcreated :
      Causes w3c ⟨.link, .link, true⟩ request (request.handoff ⟨.link, .link, true⟩ (drawnIds 2))
      onCreated :=
    .intro created (.published (drawnIds 2) ⟨"user.created", [], false⟩ created rfl) 0 rfl
      (drawnIds 3) .default
  have hwelcome :
      Causes w3c ⟨.link, .link, true⟩ onCreated
        (onCreated.handoff ⟨.link, .link, true⟩ (drawnIds 4))
      onWelcome := .intro welcomed (.delayed (drawnIds 4) welcome rfl) 0 rfl (drawnIds 5) .child
  exact List.isChain_cons_cons.mpr ⟨⟨_, hcreated⟩,
    List.isChain_cons_cons.mpr ⟨⟨_, hwelcome⟩, List.IsChain.singleton _⟩⟩

theorem request_carries : w3c.Carries request.root.baggage := by
  funext k
  by_cases hk : k = flowIdBaggageKey
  · subst hk
    rfl
  · simp [w3c, request, enter, rootSetup, incomingContext, Baggage.set, Baggage.setAll,
      Baggage.empty, Headers.empty,
      hk]

/-- A flow of three transactions. -/
theorem welcome_flow_keeps_id :
    (∀ x ∈ [onCreated, onWelcome], x.root.flowId = request.root.flowId) ∧
    onWelcome.root.span.traceId = onCreated.root.span.traceId :=
  flow_keeps_id w3c_readsBack {} (drawnIds 1) _ _ _ request_carries _ welcome_flow

/-- Each transaction of a flow knows the span that handed its message over: as its parent, in the
same trace, or by its one link and by its attributes, in a trace of its own. -/
theorem flow_links_back (hreads : t.ReadsBack) (ambient : TraceContext) (drawn : Ids)
    (tx : TransactionData) (provided : Headers) (delivery : Option Delivery)
    (hcarries : t.Carries (enter t config ambient drawn tx provided delivery).root.baggage)
    (txs : List Tx)
    (hflow : Flow t config (enter t config ambient drawn tx provided delivery) txs) :
    List.IsChain (fun s s' => ∃ d handoff, Sent t config s d handoff ∧ s'.delivery = some d ∧
      Continues t s handoff s') (enter t config ambient drawn tx provided delivery :: txs) := by
  have hfirst : Traced t (enter t config ambient drawn tx provided delivery) :=
    enter_traced ambient drawn tx provided delivery
  generalize enter t config ambient drawn tx provided delivery = s at hcarries hflow hfirst ⊢
  induction txs generalizing s with
  | nil => exact List.IsChain.singleton _
  | cons x xs ih =>
    obtain ⟨⟨handoff, hcauses⟩, hrest⟩ := List.isChain_cons_cons.mp hflow
    obtain ⟨hx, hcont⟩ := hcauses.step hreads hfirst hcarries
    obtain ⟨d, hsent, n, hn, drawn', policy⟩ := hcauses
    exact List.isChain_cons_cons.mpr ⟨⟨d, handoff, hsent, rfl, hcont⟩,
      ih _ (hcont.baggage ▸ hcarries) hrest hx⟩

/-- Its links. -/
theorem welcome_flow_links_back : ∃ handoff, Sent w3c ⟨.link, .link, true⟩ request created handoff ∧
    onCreated.root.parent = none ∧ ∃ p, SameSpan p handoff ∧ onCreated.root.links = [p] := by
  have hchain := flow_links_back w3c_readsBack {} (drawnIds 1) _ _ _ request_carries _ welcome_flow
  obtain ⟨⟨d, handoff, hsent, hdelivery, hcont⟩, -⟩ := List.isChain_cons_cons.mp hchain
  obtain rfl : created = d := Option.some.inj hdelivery
  exact ⟨handoff, hsent, (hcont.link rfl).1, (hcont.link rfl).2.1⟩

/-- The baggage that a publish span seeds outside of every transaction. -/
def seeded (t : Telemetry) (context : TraceContext) (drawn : Ids) : Baggage :=
  context.baggage.set flowIdBaggageKey (t.formatTraceId (startSpan context drawn).traceId)

/-- A message published outside of every transaction begins a flow: all that follows has the trace
id of its publish span. -/
theorem outside_begins_flow (hreads : t.ReadsBack) (hon : config.publishSpan = true)
    (context : TraceContext)
    (drawn : Ids) (hcarries : t.Carries (seeded t context drawn)) (m : BusMessage) (d : Delivery)
    (hd : d.headers = (outgoing Headers.empty (publishSpan t config context none drawn) m).headers)
    (drawn' : Ids) (policy : BoundaryPolicy) (n : Int) (txs : List Tx)
    (hflow : Flow t config (consume t config drawn' policy d n) txs) :
    ∀ x ∈ consume t config drawn' policy d n :: txs,
      x.root.flowId = t.formatTraceId (startSpan context drawn).traceId := by
  have hnone : SpanContext.invalid.isValid = false := by decide
  have hsent : d.headers "baggage" = some (.str (t.baggage (seeded t context drawn))) := by
    have hfree : ∀ x y : Option HeaderValue,
        injectHeader (injectHeader Headers.empty "traceparent" x) "tracestate" y
          "baggage" = none := by
      intro x y
      rw [injectHeader_other _ _ (by decide), injectHeader_other _ _ (by decide)]
      rfl
    rw [hd]
    simp only [outgoing, publishSpan, hon, if_true, traceMessagePublish, hfree, Option.isSome_none,
      Bool.false_eq_true, if_false]
    exact Headers.set_same _ _ _
  have hincoming : (incomingContext t {} d.headers.scalars).baggage = seeded t context drawn := by
    have hread : t.readBaggage (.str (t.baggage (seeded t context drawn))) =
        seeded t context drawn := hcarries
    simp [incomingContext, hnone, scalars_str hsent, hread]
  have hkey : seeded t context drawn flowIdBaggageKey =
      some (t.formatTraceId (startSpan context drawn).traceId) := by
    simp [seeded, Baggage.set]
  have hid : (consume t config drawn' policy d n).root.flowId =
      t.formatTraceId (startSpan context drawn).traceId := by
    simp [consume, enter, rootSetup, hincoming, hkey]
  have hbaggage : (consume t config drawn' policy d n).root.baggage = seeded t context drawn := by
    funext k
    simp only [consume, enter, rootSetup, reduceCtorEq, if_false, hincoming, hkey, Option.getD_some]
    rw [Baggage.set, Function.update_apply]
    split
    · rename_i hk
      rw [hk, hkey]
    · simp [Baggage.setAll, Baggage.empty]
  intro x hx
  obtain rfl | hx := List.mem_cons.mp hx
  · exact hid
  · have hrun := flow_run hreads (enter_traced {} drawn' _ _ _) (hbaggage ▸ hcarries) hflow rfl
    exact (hrun.1 x hx).trans hid

/-- A message that no transaction sent. -/
def announced : Delivery :=
  { created with headers :=
    (outgoing Headers.empty (publishSpan w3c ⟨.link, .link, true⟩ {} none (drawnIds 6))
      ⟨"user.created", [], false⟩).headers }

/-- A message that is published outside of transactions. -/
theorem announced_begins_flow :
    (consume w3c ⟨.link, .link, true⟩ (drawnIds 7) .default announced 0).root.flowId =
    "00000000000000000000000000000007" := by
  have hcarries : w3c.Carries (seeded w3c {} (drawnIds 6)) := by
    funext k
    by_cases hk : k = flowIdBaggageKey
    · subst hk
      rfl
    · simp [w3c, seeded, Baggage.set, Baggage.empty, hk]
  exact (outside_begins_flow w3c_readsBack rfl {} (drawnIds 6) hcarries
    ⟨"user.created", [], false⟩ announced rfl
    (drawnIds 7) .default 0 [] (List.IsChain.singleton _) _ List.mem_cons_self).trans (by decide)

end TraceFlows

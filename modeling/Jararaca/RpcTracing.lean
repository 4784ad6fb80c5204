import Jararaca.RpcCache
import Jararaca.TraceFlows

/-!
# Calls under tracing

What `TracedRequestMiddleware` makes of the requests of an RPC client: the flow that the server
finds itself in, and what is left of a cache that stands before or behind it.
-/
namespace RpcTracing

open Messages Interceptors TraceFlows RpcCache

variable {ε β δ ρ : Type}

/-! ## The middleware -/

/-- What the two propagators write, the baggage first. -/
def tracedHeaders (t : Telemetry) (context : TraceContext) : List (String × String) :=
  ("baggage", t.baggage (context.baggage.set "hello" "world")) ::
    if context.span = .invalid then []
    else ("traceparent", t.traceparent context.span) ::
      ((t.tracestate context.span).map fun state => ("tracestate", state)).toList

/-- `TracedRequestMiddleware.on_request`: the request it was given, with more headers. -/
def onRequest (t : Telemetry) (context : TraceContext) (request : Request β) : Request β :=
  { request with headers := request.headers ++ tracedHeaders t context }

/-- The middleware in the pipeline of a client, with what it reads of the context around a call. -/
def traced (t : Telemetry) (context : ε → TraceContext) : RequestMiddleware ε β :=
  .other fun env request => some (onRequest t (context env) request, true)

/-! ## The transaction of the server -/

/-- `dict(request.headers)`: names in lower case, of equal ones the first. -/
def receivedHeaders (headers : List (String × String)) : Headers := fun key =>
  (headers.find? fun h => decide (h.1.toList.map Char.toLower = key.toList)).map fun h => .str h.2

/-- The contexts in which the code of a transaction runs: its root span, and spans inside of it. -/
inductive Inside (x : Tx) : TraceContext → Prop where
  | root : Inside x x.context
  | span {context : TraceContext} (h : Inside x context) (drawn : Ids) :
      Inside x { context with span := startSpan context drawn }

/-- `root_setup` of the request that arrives. -/
def serve (t : Telemetry) (config : Config) (ambient : TraceContext) (drawn : Ids)
    (headers : List (String × String)) : Tx :=
  enter t config ambient drawn ⟨.http, receivedHeaders headers, .default, 1⟩ Headers.empty none

/-- No header of the caller has a name that tracing reads. -/
def Untraced (headers : List (String × String)) : Prop :=
  ∀ h ∈ headers, h.1.toList.map Char.toLower ∉ ["baggage".toList, "traceparent".toList,
    "tracestate".toList]

section Server

variable {t : Telemetry} {config : Config}

theorem received_append {headers more : List (String × String)} (hfree : Untraced headers)
    {key : String}
    (hkey : key.toList ∈ ["baggage".toList, "traceparent".toList, "tracestate".toList]) :
    receivedHeaders (headers ++ more) key = receivedHeaders more key := by
  have hnone : headers.find?
      (fun h => decide (h.1.toList.map Char.toLower = key.toList)) = none := by
    rw [List.find?_eq_none]
    intro h hh hname
    exact hfree h hh (of_decide_eq_true hname ▸ hkey)
  rw [receivedHeaders, List.find?_append, hnone, Option.none_or]
  rfl

theorem received_same {name value key : String} {more : List (String × String)}
    (h : name.toList.map Char.toLower = key.toList) :
    receivedHeaders ((name, value) :: more) key = some (.str value) := by
  simp [receivedHeaders, h]

theorem received_other {name value key : String} {more : List (String × String)}
    (h : name.toList.map Char.toLower ≠ key.toList) :
    receivedHeaders ((name, value) :: more) key = receivedHeaders more key := by
  simp [receivedHeaders, h]

theorem received_baggage {headers : List (String × String)} (hfree : Untraced headers)
    (context : TraceContext) :
    receivedHeaders (headers ++ tracedHeaders t context) "baggage" =
      some (.str (t.baggage (context.baggage.set "hello" "world"))) := by
  rw [received_append hfree (by decide), tracedHeaders, received_same (by decide)]

theorem received_traceparent {headers : List (String × String)} (hfree : Untraced headers)
    {context : TraceContext}
    (hvalid : context.span.isValid = true) :
    receivedHeaders (headers ++ tracedHeaders t context) "traceparent" =
      some (.str (t.traceparent context.span)) := by
  rw [received_append hfree (by decide), tracedHeaders, if_neg (ne_invalid hvalid),
    received_other (by decide),
    received_same (by decide)]

/-- Inside of a transaction every span is of its trace, and the baggage is the one around it. -/
theorem Inside.says {x : Tx} (hx : x.root.span.isValid = true) {context : TraceContext}
    (h : Inside x context) :
    context.span.isValid = true ∧ context.span.traceId = x.root.span.traceId ∧
      context.baggage = x.ambient.baggage := by
  induction h with
  | root => exact ⟨hx, rfl, rfl⟩
  | span _ drawn ih =>
    exact ⟨startSpan_valid _ drawn, (startSpan_traceId ih.1 drawn).trans ih.2.1, ih.2.2⟩

variable (config) in
/-- The server's root span is a child of the span that called, in a flow of its own trace id. -/
theorem serve_says (hreads : t.ReadsBack) {ambient context : TraceContext}
    (hrecording : (ambient.span.isValid && ambient.recording) = false)
    (hvalid : context.span.isValid = true)
    (hcarries : t.Carries (context.baggage.set "hello" "world"))
    (hflow : context.baggage flowIdBaggageKey = none) {headers : List (String × String)}
    (hfree : Untraced headers)
    (drawn : Ids) :
    (serve t config ambient drawn (headers ++ tracedHeaders t context)).root.span.traceId =
      context.span.traceId ∧
      (∃ p, SameSpan p context.span ∧
        (serve t config ambient drawn (headers ++ tracedHeaders t context)).root.parent = some p) ∧
      (serve t config ambient drawn (headers ++ tracedHeaders t context)).root.flowId =
        t.formatTraceId context.span.traceId := by
  obtain ⟨p, hread, htrace, hspan⟩ :=
    hreads context.span (receivedHeaders (headers ++ tracedHeaders t context) "tracestate") hvalid
  have hincoming :
      incomingContext t ambient (receivedHeaders (headers ++ tracedHeaders t context)) =
      { span := p, baggage := context.baggage.set "hello" "world" } := by
    have hbaggage : t.readBaggage (.str (t.baggage (context.baggage.set "hello" "world"))) =
        context.baggage.set "hello" "world" := hcarries
    simp [incomingContext, hrecording, received_traceparent hfree hvalid, received_baggage hfree,
      hread, hbaggage]
  have hp : p.isValid = true := (SameSpan.isValid ⟨htrace, hspan⟩).trans hvalid
  have hkey : (context.baggage.set "hello" "world") flowIdBaggageKey = none := by
    rw [Baggage.set, Function.update_of_ne (by decide), hflow]
  refine ⟨?_, ⟨p, ⟨htrace, hspan⟩, ?_⟩, ?_⟩
  · simp [serve, enter, rootSetup, hincoming, hrecording, resolveTraceBoundary,
      startSpan, hp, htrace]
  · simp [serve, enter, rootSetup, hincoming, hrecording, resolveTraceBoundary, hp]
  · simp [serve, enter, rootSetup, hincoming, hrecording, resolveTraceBoundary, startSpan, hp,
      htrace, hkey]

/-- A transaction of a flow, the first one among them, leaves its baggage in the context as it
was. -/
theorem flow_ambient {s : Tx} (hs : s.ambient.baggage flowIdBaggageKey = none) {txs : List Tx}
    (hflow : Flow t config s txs) : ∀ x ∈ s :: txs, x.ambient.baggage flowIdBaggageKey = none := by
  induction txs generalizing s with
  | nil =>
    intro x hx
    obtain rfl := List.mem_singleton.mp hx
    exact hs
  | cons y ys ih =>
    obtain ⟨⟨handoff, hcauses⟩, hrest⟩ := List.isChain_cons_cons.mp hflow
    obtain ⟨d, hsent, n, hn, drawn, policy⟩ := hcauses
    intro x hx
    obtain rfl | hx := List.mem_cons.mp hx
    · exact hs
    · exact ih rfl hrest x hx

/-- Every span of a flow is valid. -/
theorem flow_valid {s : Tx} (hs : Traced t s) {txs : List Tx} (hflow : Flow t config s txs) :
    ∀ x ∈ s :: txs, x.root.span.isValid = true := by
  induction txs generalizing s with
  | nil =>
    intro x hx
    obtain rfl := List.mem_singleton.mp hx
    exact hs.valid
  | cons y ys ih =>
    obtain ⟨⟨handoff, hcauses⟩, hrest⟩ := List.isChain_cons_cons.mp hflow
    have hy : Traced t y := by
      obtain ⟨d, hsent, n, hn, drawn, policy⟩ := hcauses
      exact enter_traced {} drawn _ _ _
    intro x hx
    obtain rfl | hx := List.mem_cons.mp hx
    · exact hs.valid
    · exact ih hy hrest x hx

/-- An RPC call keeps the trace and drops the flow: whatever transaction of a flow calls, the server
takes its trace id for the id of the flow, which is the flow's own only in the trace it began
with. -/
theorem call_leaves_flow (hreads : t.ReadsBack)
    (hformat : Set.InjOn t.formatTraceId (Set.Iio (2 ^ 128)))
    (ambient : TraceContext) (hambient : ambient.baggage flowIdBaggageKey = none) (drawn : Ids)
    (tx : TransactionData) (provided : Headers) (delivery : Option Delivery)
    (hbegins : (enter t config ambient drawn tx provided delivery).root.flowId =
      t.formatTraceId (enter t config ambient drawn tx provided delivery).root.span.traceId)
        (txs : List Tx)
    (hflow : Flow t config (enter t config ambient drawn tx provided delivery) txs) (x : Tx)
    (hx : x ∈ enter t config ambient drawn tx provided delivery :: txs) (context : TraceContext)
    (hinside : Inside x context) (hcarries : t.Carries (context.baggage.set "hello" "world"))
    (headers : List (String × String)) (hfree : Untraced headers) (around : TraceContext)
    (haround : (around.span.isValid && around.recording) = false) (drawn' : Ids) :
    (∃ p, SameSpan p context.span ∧
        (serve t config around drawn' (headers ++ tracedHeaders t context)).root.parent = some p) ∧
      (serve t config around drawn' (headers ++ tracedHeaders t context)).root.span.traceId =
        x.root.span.traceId ∧
      ((serve t config around drawn' (headers ++ tracedHeaders t context)).root.flowId =
          (enter t config ambient drawn tx provided delivery).root.flowId ↔
        x.root.span.traceId =
          (enter t config ambient drawn tx provided delivery).root.span.traceId) := by
  have hfirst : Traced t (enter t config ambient drawn tx provided delivery) :=
    enter_traced ambient drawn tx provided delivery
  generalize hs : enter t config ambient drawn tx provided delivery = s at hbegins hflow hx hfirst ⊢
  have hbaggage : s.ambient.baggage flowIdBaggageKey = none := by
    rw [← hs]
    exact hambient
  have hxvalid := flow_valid hfirst hflow x hx
  obtain ⟨hvalid, htrace, hcontext⟩ := hinside.says hxvalid
  have hnone : context.baggage flowIdBaggageKey = none := by
    rw [hcontext]
    exact flow_ambient hbaggage hflow x hx
  obtain ⟨hserved, hparent, hid⟩ :=
    serve_says config hreads haround hvalid hcarries hnone hfree drawn'
  refine ⟨hparent, hserved.trans htrace, ?_⟩
  have hbound : ∀ c : SpanContext, c.isValid = true → c.traceId ∈ Set.Iio (2 ^ 128) := by
    intro c hc
    simp only [SpanContext.isValid, validTraceId, Bool.and_eq_true, decide_eq_true_eq] at hc
    exact hc.1.2
  rw [hid, hbegins, htrace]
  exact hformat.eq_iff (hbound _ hxvalid) (hbound _ hfirst.valid)

end Server

/-- The formats, with a baggage of the id of the flow or of the middleware's entry. -/
def greeting : Telemetry :=
  { w3c with
    baggage := fun b => match b flowIdBaggageKey with
      | some id => "flow.id=" ++ id
      | none => "hello=" ++ (b "hello").getD ""
    readBaggage := fun
      | .str s =>
        if ['h'].isPrefixOf s.toList then Baggage.empty.set "hello"
        (String.ofList (s.toList.drop 6))
        else Baggage.empty.set flowIdBaggageKey (String.ofList (s.toList.drop 8))
      | _ => Baggage.empty }

theorem greeting_format : Set.InjOn greeting.formatTraceId (Set.Iio (2 ^ 128)) := by
  intro m hm n hn h
  have hdigits : hexDigits 32 m = hexDigits 32 n := String.ofList_injective h
  have hbound : (2 : Nat) ^ 128 = 16 ^ 32 := by norm_num
  rw [Set.mem_Iio, hbound] at hm hn
  rw [← hexValue_hexDigits hm, hdigits, hexValue_hexDigits hn]

/-- Ids by any number. -/
def idsOf (n : Nat) : Ids := drawnIds ⟨n % 100, Nat.mod_lt n (Nat.succ_pos 99)⟩

/-- A request that places an order, and the transaction of its message behind a link. -/
def order : Tx :=
  enter greeting ⟨.link, .link, true⟩ {}
    (idsOf 1) ⟨.http, Headers.empty, .default, 1⟩ Headers.empty none

def placed : Delivery where
  body := []
  headers := (outgoing order.implicit (publishSpan greeting ⟨.link, .link, true⟩ order.context
    (some order.root.flowId) (idsOf 2)) ⟨"order.placed", [], false⟩).headers
  messageId := none
  contentType := none
  contentEncoding := none

def onPlaced : Tx := consume greeting ⟨.link, .link, true⟩ (idsOf 3) .default placed 0

theorem placed_flow : Flow greeting ⟨.link, .link, true⟩ order [onPlaced] := by
  have hplaced :
      Causes greeting ⟨.link, .link, true⟩ order (order.handoff ⟨.link, .link, true⟩ (idsOf 2))
      onPlaced :=
    .intro placed (.published (idsOf 2) ⟨"order.placed", [], false⟩ placed rfl) 0 rfl
      (idsOf 3) .default
  exact List.isChain_cons_cons.mpr ⟨⟨_, hplaced⟩, List.IsChain.singleton _⟩

theorem greeting_readsBack : greeting.ReadsBack := by
  simpa only [Telemetry.ReadsBack, greeting] using w3c_readsBack

theorem greeting_carries : greeting.Carries (Baggage.empty.set "hello" "world") := rfl

theorem placed_apart : onPlaced.root.span.traceId ≠ order.root.span.traceId := by decide

/-- A call that is made while an order is placed. -/
theorem placed_call_leaves_flow :
    (serve greeting ⟨.link, .link,
      true⟩ {} (idsOf 5) ([] ++ tracedHeaders greeting onPlaced.context)).root.flowId ≠
      order.root.flowId := by
  have hcall := call_leaves_flow greeting_readsBack greeting_format {} rfl (idsOf 1)
    ⟨.http, Headers.empty, .default, 1⟩ Headers.empty none rfl [onPlaced] placed_flow onPlaced
    (List.mem_cons_of_mem _ List.mem_cons_self) onPlaced.context .root greeting_carries []
    (fun h hh => absurd hh List.not_mem_nil) {} rfl (idsOf 5)
  exact fun h => placed_apart (hcall.2.2.mp h)

/-! ## The cache -/

def Baggaged (r : Request β) : Prop := "baggage" ∈ r.headers.map Prod.fst

def traceparents (r : Request β) : List String :=
  (r.headers.filter fun h => decide (h.1 = "traceparent")).map Prod.snd

/-- A request middleware leaves requests as they are said to be. -/
def Keeps (P : Request β → Prop) : RequestMiddleware ε β → Prop
  | .cache _ => True
  | .other onRequest => ∀ env r r' kept, onRequest env r = some (r', kept) → P r → P r'

/-- What a call finds in a cache was stored under another key with the same hash. -/
def HitsCollide (client : Client ε β δ ρ) (caches : Caches β δ) (c : Call ε β) : Prop :=
  ∀ p found, client.prepare caches c = some p → p.found = some found →
    found.asked.keyData ≠ found.entry.stored.keyData

section Pipeline

variable {client : Client ε β δ ρ} {caches : Caches β δ} {now : ℚ} {env : ε} {P : Request β → Prop}

/-- What is known of a request on its way, and of the one it was looked up as. -/
structure Asks (P : Request β → Prop) (p : Prepared β δ) : Prop where
  request : P p.request
  asked : ∀ found, p.found = some found → P found.asked

theorem cacheOnRequest_request (i : Nat) (p : Prepared β δ) :
    (client.cacheOnRequest caches now i p).request = p.request := by
  unfold Client.cacheOnRequest
  split
  · split
    · split <;> rfl
    · rfl
  · rfl

theorem cacheOnRequest_asks (i : Nat) {p : Prepared β δ} (h : Asks P p) :
    Asks P (client.cacheOnRequest caches now i p) := by
  refine ⟨by rw [cacheOnRequest_request]; exact h.request, ?_⟩
  unfold Client.cacheOnRequest
  split
  · split
    · split
      · intro found hfound
        cases hfound
        exact h.request
      · exact h.asked
    · exact h.asked
  · exact h.asked

theorem passMiddlewares_append (front back : List (RequestMiddleware ε β)) (p : Prepared β δ) :
    client.passMiddlewares caches now env (front ++ back) p =
      (client.passMiddlewares caches now env front p).bind
        (client.passMiddlewares caches now env back) := by
  induction front generalizing p with
  | nil => rfl
  | cons middleware rest ih =>
    cases middleware with
    | cache i => exact ih _
    | other onRequest =>
      simp only [List.cons_append, Client.passMiddlewares, Option.bind_assoc]
      congr 1
      funext out
      exact ih _

/-- What every cache and every other middleware of a list leaves in force holds behind the list. -/
theorem passMiddlewares_preserves {I : Prepared β δ → Prop}
    {middlewares : List (RequestMiddleware ε β)}
    (hcache : ∀ i, .cache i ∈ middlewares → ∀ p, I p → I (client.cacheOnRequest caches now i p))
    (hother : ∀ onRequest, .other onRequest ∈ middlewares → ∀ p request kept,
      onRequest env p.request = some (request, kept) → I p →
        I ⟨request, if kept then p.found else none⟩)
    {p p' : Prepared β δ} (h : I p)
    (hpass : client.passMiddlewares caches now env middlewares p = some p') :
    I p' := by
  induction middlewares generalizing p with
  | nil =>
    cases hpass
    exact h
  | cons middleware rest ih =>
    have hrest := @ih (fun i hi => hcache i (List.mem_cons_of_mem middleware hi))
      (fun onRequest ho => hother onRequest (List.mem_cons_of_mem middleware ho))
    cases middleware with
    | cache i => exact hrest (hcache i List.mem_cons_self p h) hpass
    | other onRequest =>
      obtain ⟨⟨request, kept⟩, hrequest, hpass⟩ := Option.bind_eq_some_iff.mp hpass
      exact hrest (hother onRequest List.mem_cons_self p request kept hrequest h) hpass

/-- What every middleware keeps is so of the request that is sent. -/
theorem passMiddlewares_request {middlewares : List (RequestMiddleware ε β)}
    (hkeeps : ∀ m ∈ middlewares, Keeps P m)
    {p p' : Prepared β δ} (h : P p.request)
    (hpass : client.passMiddlewares caches now env middlewares p = some p') :
    P p'.request := by
  refine passMiddlewares_preserves (I := fun p => P p.request) ?_ ?_ h hpass
  · intro i _ p hp
    rw [cacheOnRequest_request]
    exact hp
  · intro onRequest ho p request kept hrequest hp
    exact hkeeps _ ho env p.request request kept hrequest hp

theorem passMiddlewares_asks {middlewares : List (RequestMiddleware ε β)}
    (hkeeps : ∀ m ∈ middlewares, Keeps P m)
    {p p' : Prepared β δ} (h : Asks P p)
    (hpass : client.passMiddlewares caches now env middlewares p = some p') :
    Asks P p' := by
  refine passMiddlewares_preserves (fun i _ p hp => cacheOnRequest_asks i hp) ?_ h hpass
  intro onRequest ho p request kept hrequest hp
  refine ⟨hkeeps _ ho env p.request request kept hrequest hp.request, fun found hfound => ?_⟩
  cases kept with
  | true => exact hp.asked found hfound
  | false => cases hfound

/-- Middlewares without a cache find nothing. -/
theorem passMiddlewares_bare {middlewares : List (RequestMiddleware ε β)}
    (hbare : ∀ m ∈ middlewares, ∀ i, m ≠ .cache i) {p p' : Prepared β δ}
    (hpass : client.passMiddlewares caches now env middlewares p = some p') {found : Found β δ} :
    p'.found = some found → p.found = some found := by
  refine passMiddlewares_preserves (I :=
    fun q => q.found = some found → p.found = some found) ?_ ?_ id hpass
  · intro i hi
    exact absurd rfl (hbare _ hi i)
  · intro onRequest _ q request kept _ hq hfound
    cases kept with
    | true => exact hq hfound
    | false => cases hfound

theorem passHooks_keeps {hooks : List (ε → Request β → Option (Request β))}
    (hkeeps : ∀ hook ∈ hooks, ∀ env r r', hook env r = some r' → P r → P r')
    {r r' : Request β} (h : P r)
    (hpass : Client.passHooks env hooks r = some r') : P r' := by
  induction hooks generalizing r with
  | nil =>
    cases hpass
    exact h
  | cons hook rest ih =>
    obtain ⟨hfirst, hrest⟩ := List.forall_mem_cons.mp hkeeps
    obtain ⟨request, hrequest, hpass⟩ := Option.bind_eq_some_iff.mp hpass
    exact ih hrest (hfirst env r request hrequest h) hpass

/-- A request is prepared by the hooks, what stands before tracing, tracing, and what stands
behind. -/
theorem prepare_cut {t : Telemetry} {context : ε → TraceContext}
    {front back : List (RequestMiddleware ε β)}
    (hlayout : client.middlewares = front ++ traced t context :: back) {c : Call ε β}
    {p : Prepared β δ}
    (hp : client.prepare caches c = some p) :
    ∃ r p₁, Client.passHooks c.env client.requestHooks c.request = some r ∧
      client.passMiddlewares caches c.time c.env front ⟨r, none⟩ = some p₁ ∧
      client.passMiddlewares caches c.time c.env back
        ⟨onRequest t (context c.env) p₁.request, p₁.found⟩ = some p := by
  obtain ⟨r, hr, hpass⟩ := Option.bind_eq_some_iff.mp hp
  rw [hlayout, passMiddlewares_append] at hpass
  obtain ⟨p₁, hfront, hback⟩ := Option.bind_eq_some_iff.mp hpass
  exact ⟨r, p₁, hr, hfront, hback⟩

end Pipeline

/-! ## Runs -/

/-- What is known of every request stored or waiting. -/
structure Holds (P : Request β → Prop) (s : State ε β δ ρ) : Prop where
  stored : ∀ i key e, s.caches i key = some e → P e.stored
  waiting : ∀ w ∈ s.pending, P w.request

section Runs

variable {client : Client ε β δ ρ} {P : Request β → Prop} {s : State ε β δ ρ}

theorem holds_complete (h : Holds P s) {m : Method β δ ρ} {c : Call ε β} {env : ε}
    {request : Request β}
    (hrequest : P request) {t : Tracked δ} {cache : Option Nat} {now : ℚ} :
    Holds P (complete client m c env request t cache now s) := by
  unfold complete
  split
  · exact h
  · refine ⟨?_, h.waiting⟩
    intro i key e he
    dsimp only at he
    split at he
    · rw [Client.store] at he
      split at he
      · cases he
        exact hrequest
      · exact h.stored i key e he
    · exact h.stored i key e he

/-- What holds of prepared requests holds of the stored ones. -/
theorem holds_step (h : Holds P s) {e : Event ε β δ}
    (hprepared : ∀ c, e = .call c → ∀ p, client.prepare s.caches c = some p → P p.request) :
    Holds P (step client s e) := by
  cases e with
  | call c =>
    simp only [step]
    split
    · next m p hm hp =>
      have hrequest := hprepared c rfl p hp
      split
      · exact holds_complete h hrequest
      · refine ⟨h.stored, ?_⟩
        intro w hw
        obtain hw | hw := List.mem_append.mp hw
        · exact h.waiting w hw
        · rw [List.mem_singleton.mp hw]
          exact hrequest
    · exact h
  | answer i fetched env now =>
    simp only [step]
    split
    · exact h
    · next waiting hwaiting =>
      have hrest : Holds P { s with pending := s.pending.eraseIdx i } :=
        ⟨h.stored, fun w hw => h.waiting w (List.mem_of_mem_eraseIdx hw)⟩
      split
      · exact holds_complete hrest (h.waiting waiting (List.mem_of_getElem? hwaiting))
      · exact hrest

/-- So it is after every run. -/
theorem holds_run {events : List (Event ε β δ)} (h : Holds P s)
    (hprepared : ∀ c, .call c ∈ events → ∀ caches p, client.prepare caches c = some p →
      P p.request) :
    Holds P (run client s events) := by
  induction events generalizing s with
  | nil => exact h
  | cons e events ih =>
    refine ih (holds_step h ?_) fun c hc => hprepared c (List.mem_cons_of_mem e hc)
    rintro c rfl p hp
    exact hprepared c List.mem_cons_self s.caches p hp

theorem holds_initial : Holds P (initial : State ε β δ ρ) where
  stored i key e he := by cases he
  waiting w hw := by cases hw

end Runs

theorem onRequest_baggaged (t : Telemetry) (context : TraceContext) (r : Request β) :
    Baggaged (onRequest t context r) := by
  simp [Baggaged, onRequest, tracedHeaders]

theorem baggaged_of_keyData {a b : Request β} (h : a.keyData = b.keyData) (hb : Baggaged b) :
    Baggaged a :=
  ((sameAtBackend_of_keyData h).headers.map Prod.fst).mem_iff.mpr hb

/-- Behind the caches, tracing makes them useless: the requests they store have a header that the
ones they are asked for never have, so only a collision of hashes is ever a hit. -/
theorem cache_before_tracing_never_answers (t : Telemetry) (client : Client ε β δ ρ)
    (context : ε → TraceContext)
    (front back : List (RequestMiddleware ε β))
    (hlayout : client.middlewares = front ++ traced t context :: back)
    (hbare : ∀ m ∈ back, ∀ i, m ≠ .cache i)
    (hhooks : ∀ hook ∈ client.requestHooks, ∀ env r r', hook env r = some r' → ¬ Baggaged r →
      ¬ Baggaged r')
    (hfront : ∀ m ∈ front, Keeps (fun r => ¬ Baggaged r) m) (hback : ∀ m ∈ back, Keeps Baggaged m)
    (events : List (Event ε β δ)) (c : Call ε β) (hc : ¬ Baggaged c.request) :
    HitsCollide client (run client initial events).caches c := by
  have hprepared : ∀ caches c p, client.prepare caches c = some p → Baggaged p.request := by
    intro caches c p hp
    obtain ⟨r, p₁, -, -, hpass⟩ := prepare_cut hlayout hp
    exact passMiddlewares_request hback (onRequest_baggaged t _ p₁.request) hpass
  have hrun : Holds Baggaged (run client initial events) :=
    holds_run holds_initial fun c _ caches p hp => hprepared caches c p hp
  intro p found hp hfound hsame
  have hstored : Baggaged found.entry.stored := hrun.stored _ _ _ (prepare_found hp found hfound).1
  obtain ⟨r, p₁, hr, hpass, hrest⟩ := prepare_cut hlayout hp
  have hasks : Asks (fun r => ¬ Baggaged r) p₁ :=
    passMiddlewares_asks hfront ⟨passHooks_keeps hhooks hc hr, by rintro found ⟨⟩⟩ hpass
  exact hasks.asked found (passMiddlewares_bare hbare hrest hfound)
    (baggaged_of_keyData hsame hstored)

/-- A client with one cache of five minutes and the tracing of its calls. -/
def pricing (middlewares : List (RequestMiddleware TraceContext Unit)) :
    Client TraceContext Unit Nat Nat where
  cacheKey k := k.method ++ k.url ++ String.join (k.headers.map fun h => h.1 ++ ":" ++ h.2)
  ttlSeconds _ := 300
  requestHooks := []
  middlewares := middlewares
  responseMiddlewares := []
  responseHooks := []
  methods :=
    [{ successStatuses := [200], errorHandlers := [], unhandled := fun _ _ => 0
       decode := Response.rest }]

/-- A call from inside of the transaction that places the order. -/
def pricedAt (time : ℚ) : Call TraceContext Unit := ⟨0, priceRequest, order.context, time⟩

def priced : List (Event TraceContext Unit Nat) :=
  [.call (pricedAt 0), .answer 0 (some ⟨200, 42⟩) order.context 1]

/-- Its second call in another span. -/
theorem second_price_collides : HitsCollide (pricing [.cache 0, traced greeting id])
    (run (pricing [.cache 0, traced greeting id]) initial priced).caches (pricedAt 10) :=
  cache_before_tracing_never_answers greeting (pricing [.cache 0, traced greeting id]) id [.cache 0]
    [] rfl
    (fun _ hm => absurd hm List.not_mem_nil) (fun _ hhook => absurd hhook List.not_mem_nil)
    (fun _ hm => List.mem_singleton.mp hm ▸ trivial)
      (fun _ hm => absurd hm List.not_mem_nil) priced (pricedAt 10)
    List.not_mem_nil

/-- A traced request has the traceparent of its span, and no other. -/
theorem onRequest_traceparents {t : Telemetry} {context : TraceContext}
    (hvalid : context.span.isValid = true)
    {r : Request β} (hr : traceparents r = []) :
    traceparents (onRequest t context r) = [t.traceparent context.span] := by
  have hkept : r.headers.filter (fun h => decide (h.1 = "traceparent")) = [] :=
    List.map_eq_nil_iff.mp hr
  rw [traceparents, onRequest, List.filter_append, hkept, tracedHeaders, if_neg (ne_invalid hvalid)]
  cases t.tracestate context.span with
  | none => rfl
  | some state => rfl

theorem traceparents_of_keyData {a b : Request β} (h : a.keyData = b.keyData) :
    (traceparents a).Perm (traceparents b) :=
  ((sameAtBackend_of_keyData h).headers.filter _).map Prod.snd

/-- Before the caches, tracing makes the span a part of the key: a hit was stored for a call of the
same span. -/
theorem cached_answers_stay_in_span {t : Telemetry} (hreads : t.ReadsBack) (client : Client ε β δ ρ)
    (context : ε → TraceContext) (front back : List (RequestMiddleware ε β))
    (hlayout : client.middlewares = front ++ traced t context :: back)
    (hbare : ∀ m ∈ front, ∀ i, m ≠ .cache i)
    (hhooks : ∀ hook ∈ client.requestHooks, ∀ env r r', hook env r = some r' →
      traceparents r = [] → traceparents r' = [])
    (hfront : ∀ m ∈ front, Keeps (fun r => traceparents r = []) m)
    (hback : ∀ m ∈ back, ∀ values, Keeps (fun r => traceparents r = values) m)
    (events : List (Event ε β δ))
    (hcalls : ∀ c, .call c ∈ events →
      traceparents c.request = [] ∧ (context c.env).span.isValid = true)
    (c : Call ε β) (hc : traceparents c.request = [] ∧ (context c.env).span.isValid = true)
    (p : Prepared β δ)
    (hp : client.prepare (run client initial events).caches c = some p) (found : Found β δ)
    (hfound : p.found = some found) (hsame : found.asked.keyData = found.entry.stored.keyData) :
    ∃ c', .call c' ∈ events ∧ SameSpan (context c'.env).span (context c.env).span := by
  have hasks : ∀ caches c p, traceparents c.request = [] ∧ (context c.env).span.isValid = true →
      client.prepare caches c = some p →
      Asks (fun r => traceparents r = [t.traceparent (context c.env).span]) p := by
    intro caches c p hc hp
    obtain ⟨r, p₁, hr, hpass, hrest⟩ := prepare_cut hlayout hp
    have hbefore : traceparents p₁.request = [] :=
      passMiddlewares_request hfront (passHooks_keeps hhooks hc.1 hr) hpass
    refine passMiddlewares_asks (fun m hm => hback m hm _)
      ⟨onRequest_traceparents hc.2 hbefore, ?_⟩ hrest
    intro found hfound
    cases passMiddlewares_bare hbare hpass hfound
  have hrun : Holds (fun r => ∃ c',
      Event.call c' ∈ events ∧ traceparents r = [t.traceparent (context c'.env).span])
      (run client initial events) :=
    holds_run holds_initial fun c hmem caches p hp =>
      ⟨c, hmem, (hasks caches c p (hcalls c hmem) hp).request⟩
  obtain ⟨c', hmem, hstored⟩ := hrun.stored _ _ _ (prepare_found hp found hfound).1
  refine ⟨c', hmem, ?_⟩
  have hasked := (hasks _ c p hc hp).asked found hfound
  have hperm := traceparents_of_keyData hsame
  rw [hasked, hstored] at hperm
  have htext : t.traceparent (context c.env).span = t.traceparent (context c'.env).span :=
    List.singleton_perm_singleton.mp hperm
  obtain ⟨q, hq, htrace, hspan⟩ := hreads (context c.env).span none hc.2
  obtain ⟨q', hq', htrace', hspan'⟩ := hreads (context c'.env).span none (hcalls c' hmem).2
  rw [htext, hq'] at hq
  obtain rfl := Option.some.inj hq
  exact ⟨htrace'.symm.trans htrace, hspan'.symm.trans hspan⟩

/-- What the first call leaves in the cache. -/
def pricedEntry : Entry Unit Nat :=
  ⟨⟨⟨200, 42⟩, []⟩, 1, onRequest greeting order.context priceRequest, false⟩

theorem priced_hit : (pricing [traced greeting id, .cache 0]).prepare
    (run (pricing [traced greeting id, .cache 0]) initial priced).caches (pricedAt 10) =
      some ⟨onRequest greeting order.context priceRequest,
        some ⟨0, onRequest greeting order.context priceRequest, pricedEntry⟩⟩ := by
  have hcaches : (run (pricing [traced greeting id, .cache 0]) initial priced).caches =
      (pricing [traced greeting id, .cache 0]).store
        (onRequest greeting order.context priceRequest) pricedEntry
        fun _ _ => none := rfl
  have hprepare : ∀ caches, (pricing [traced greeting id, .cache 0]).prepare caches (pricedAt 10) =
      some ((pricing [traced greeting id, .cache 0]).cacheOnRequest caches 10 0
        ⟨onRequest greeting order.context priceRequest, none⟩) := fun _ => rfl
  have hfresh : (10 : ℚ) - pricedEntry.timestamp <
      (pricing [traced greeting id, .cache 0]).ttlSeconds 0 := by
    decide +kernel
  have hget : (onRequest greeting order.context priceRequest).method = "GET" := rfl
  have hcache : (pricing [traced greeting id, .cache 0]).hasCache 0 = true := rfl
  rw [hcaches, hprepare, Client.cacheOnRequest]
  simp only [hget, Client.store, hcache, hfresh, if_true, and_self]

/-- Two calls of one span. -/
theorem priced_in_span : ∃ c', Event.call c' ∈ priced ∧ SameSpan c'.env.span order.context.span :=
  cached_answers_stay_in_span greeting_readsBack (pricing [traced greeting id, .cache 0]) id []
    [.cache 0] rfl
    (fun _ hm => absurd hm List.not_mem_nil) (fun _ hhook => absurd hhook List.not_mem_nil)
    (fun m hm => absurd hm List.not_mem_nil)
      (fun m hm _ => List.mem_singleton.mp hm ▸ trivial) priced
    (fun c hc => by
      have hcall : c = pricedAt 0 := by simpa [priced] using hc
      subst hcall
      exact ⟨rfl, rfl⟩)
    (pricedAt 10) ⟨rfl, rfl⟩ _ priced_hit _ rfl rfl

end RpcTracing

import Jararaca.WorkerTransactions

/-!
# The headers of child messages

The messages a handler stages leave with the implicit headers of its transaction, and
`handle_message` puts every scalar header of the delivery among them, those that count
its retries included.
-/
namespace ChildHeaders

open Programs Messages UnitOfWork Interceptors Worker WorkerRules WorkerTransactions
  WorkerSettlement

/-- The headers that say how often a message was retried. -/
def retryNames : List String := [xRetryCount, xLastError]

/-- The headers carry the retry history of some delivery. -/
def CarriesRetry (h : Headers) : Prop := ∃ k ∈ retryNames, (h k).isSome = true

/-- The headers a message leaves with, on the exchange or in the broker backend. -/
def sentHeaders : Effect → Option Headers
  | .published m => some m.headers
  | .scheduled d => some (d.headers.getD Headers.empty)
  | _ => none

theorem retryNames_not_trace {k : String} (hk : k ∈ retryNames) :
    k ≠ "traceparent" ∧ k ≠ "tracestate" ∧ k ≠ "baggage" := by
  simp only [retryNames, xRetryCount, xLastError, List.mem_cons, List.not_mem_nil, or_false] at hk
  obtain rfl | rfl := hk <;> decide

/-- The publish span writes trace headers only. -/
theorem traceMessagePublish_retry (implicit : Headers) (span : PublishSpan) {k : String}
    (hk : k ∈ retryNames) : traceMessagePublish implicit span k = implicit k := by
  obtain ⟨hp, hs, hb⟩ := retryNames_not_trace hk
  cases span with
  | off => rfl
  | on traceparent tracestate baggage =>
    simp only [traceMessagePublish]
    split
    · rw [injectHeader_other _ _ hs, injectHeader_other _ _ hp]
    · rw [injectHeader_other _ _ hb, injectHeader_other _ _ hs, injectHeader_other _ _ hp]

theorem tracingHeaders_retry (t : TracingHeaders) {k : String} (hk : k ∈ retryNames) :
    t.headers k = none := by
  obtain ⟨hp, hs, hb⟩ := retryNames_not_trace hk
  rw [TracingHeaders.headers, injectHeader_other _ _ hb, injectHeader_other _ _ hs,
    injectHeader_other _ _ hp]
  rfl

/-- Retry headers of a sent message are those of the implicit headers; what is enqueued
in the broker backend leaves out the values that are None. -/
def SentFrom (implicit : Headers) (a : Effect) : Prop :=
  ∀ h, sentHeaders a = some h → ∀ k ∈ retryNames,
    h k = implicit k ∨ h k = (implicit k).filter (· != .other "None")

/-- Programs that only add effects of one kind. -/
def adds (P : Effect → Prop) : Prog.Frame (List Effect) where
  rel s t := ∀ a ∈ t, a ∈ s ∨ P a
  refl _ := fun _ ha => .inl ha
  trans := by
    intro s t u h k a ha
    obtain hat | hp := k a ha
    · exact h a hat
    · exact .inr hp

theorem emit_adds {P : Effect → Prop} {a : Effect} (h : P a) : Prog.Keeps (adds P) (emit a) := by
  intro s b hb
  have hb' : b ∈ s ∨ b = a := by simpa [emit] using hb
  obtain hb | rfl := hb'
  · exact .inl hb
  · exact .inr h

section Flush

variable (implicit : Headers) (env : ConnectionEnv)

theorem publishAll_adds (n : Nat) (ms : List BusMessage) :
    Prog.Keeps (adds (SentFrom implicit)) (publishAll implicit env n ms) := by
  induction ms generalizing n with
  | nil => exact Prog.Keeps.pure ()
  | cons m ms ih =>
    apply (Prog.Keeps.ofExcept _).bind
    intro _
    apply (emit_adds ?_).bind fun _ => ih (n + 1)
    intro h hs k hk
    cases hs
    exact .inl (traceMessagePublish_retry implicit (env.span n) hk)

theorem scheduleAll_adds (n : Nat) (ds : List DelayedMessageData)
    (hd : ∀ d ∈ ds, d.headers = none) :
    Prog.Keeps (adds (SentFrom implicit)) (scheduleAll implicit env n ds) := by
  induction ds generalizing n with
  | nil => exact Prog.Keeps.pure ()
  | cons d ds ih =>
    apply (Prog.Keeps.ofExcept _).bind
    intro _
    apply (emit_adds ?_).bind fun _ => ih (n + 1) fun d' hd' => hd d' (by simp [hd'])
    intro h hs k hk
    cases hs
    right
    have htrace := traceMessagePublish_retry implicit (env.span n) hk
    simp [withPublishHeaders, hd d (by simp), htrace, Headers.empty]

theorem flush_adds (p : AIOPikaMessagePublisher)
    (hd : ∀ d ∈ p.stagedDelayedMessages, d.headers = none) :
    Prog.Keeps (adds (SentFrom implicit)) (flush implicit env p) := by
  apply (publishAll_adds implicit env 0 p.stagedMessages).bind
  intro _
  apply (Prog.Keeps.raise _).when.bind
  intro _
  exact scheduleAll_adds implicit env _ p.stagedDelayedMessages hd

/-- A connection adds to what its body publishes only messages that carry the implicit headers. -/
theorem provideConnection_adds {body : Prog (List Effect) PyExc Unit}
    (h : Prog.Keeps (adds (SentFrom implicit)) body) :
    Prog.Keeps (adds (SentFrom implicit)) (provideConnection env body) := by
  have hbus : ∀ a, sentHeaders a = none → SentFrom implicit a := by
    intro a ha h hs
    rw [ha] at hs
    cases hs
  apply (Prog.Keeps.ofExcept _).bind
  intro _
  apply Prog.Keeps.tryExcept
  · apply Prog.Keeps.catching
    · apply h.bind
      intro _
      exact (Prog.Keeps.ofExcept _).bind fun _ => emit_adds (hbus _ rfl)
    · intro e
      exact (emit_adds (hbus _ rfl)).bind fun _ => Prog.Keeps.raise e
  · exact fun e => Prog.Keeps.raise _

/-- What is staged for later carries no headers of its own. -/
theorem fill_headers {c : MessagePublisherCollector} {hasBackend : Bool}
    {p : AIOPikaMessagePublisher} (h : c.fill hasBackend = .ok p) :
    ∀ d ∈ p.stagedDelayedMessages, d.headers = none := by
  intro d hd
  unfold MessagePublisherCollector.fill at h
  split at h
  · cases h
  · cases h
    obtain ⟨c, -, rfl⟩ := List.mem_map.mp hd
    rfl

/-- Whatever leaves a publisher context leaves with the implicit headers around it. -/
theorem publisherAfter_adds (atEnd : Bool) (t : Transaction) (exc : Option PyExc) :
    Prog.Keeps (adds (SentFrom t.implicit)) (publisherAfter atEnd env t exc) := by
  cases exc with
  | some e => exact Prog.Keeps.raise e
  | none =>
    unfold publisherAfter
    apply Prog.Keeps.ite
    · apply Prog.Keeps.ite
      · apply provideConnection_adds
        cases hfill : (MessagePublisherCollector.ofCalls t.staged).fill env.hasBackend with
        | error e => exact fun s => (adds _).refl s
        | ok p => exact flush_adds t.implicit env p (fill_headers hfill)
      · exact Prog.Keeps.pure ()
    · exact provideConnection_adds _ _ (flush_adds _ _ _ (by simp))

end Flush

/-- No interceptor of the stack and nothing around the worker sets retry headers of its
own. The interceptors of the framework set trace headers only. -/
structure NoRetrySource (interceptors : List Interceptor) (x : Execution) : Prop where
  ambient : ∀ k ∈ retryNames, x.ambient k = none
  provides : ∀ i ∈ interceptors, ∀ k ∈ retryNames, i.provides k = none

section Children

variable {spec : HandlerSpec} {interceptors : List Interceptor} {msg : Delivery} {x : Execution}
  {n : Int}

theorem implicitInside_retry {implicit : Headers} {k : String}
    (h : ∀ i ∈ interceptors, i.provides k = none) :
    implicitInside implicit interceptors k = implicit k := by
  induction interceptors generalizing implicit with
  | nil => rfl
  | cons i is ih =>
    have hi := h i (by simp)
    calc implicitInside implicit (i :: is) k
        = implicitInside (implicit.merge i.provides) is k := rfl
      _ = implicit.merge i.provides k := ih fun j hj => h j (by simp [hj])
      _ = implicit k := by simp [hi]

/-- Inside the stack, the retry headers in force are those of the delivery. -/
theorem implicit_retry (hs : NoRetrySource interceptors x) {k : String} (hk : k ∈ retryNames)
    (p : Nat) : implicitInside (providedHeaders msg x) (interceptors.take p) k =
      msg.headers.scalars k := by
  rw [implicitInside_retry fun i hi => hs.provides i (List.mem_of_mem_take hi) k hk]
  simp [providedHeaders, hs.ambient k hk]

/-- A scalar header is never None. -/
theorem scalars_filter (h : Headers) (k : String) :
    (h.scalars k).filter (· != .other "None") = h.scalars k := by
  unfold Headers.scalars
  cases h k with
  | none => rfl
  | some v => cases v <;> rfl

/-- Every effect of a publisher context in a run is sent from the headers around it. -/
theorem publisher_effect (hn : getRetryCount msg.headers = some n)
    (hall : AllEnter (workContexts interceptors msg x)) {p : Nat} {atEnd : Bool}
    {env : ConnectionEnv}
    (hi : interceptors[p]? = some (messageBusPublisherInterceptor atEnd env)) {a : Effect}
    (ha : .effect (p + 1) a ∈ uowEvents (final spec interceptors msg x).log) :
    SentFrom (implicitInside (providedHeaders msg x) (interceptors.take p)) a := by
  obtain ⟨r, t, hbody⟩ : ∃ r t, transactionBody spec msg (workHeaders interceptors msg x) n x
      (entered interceptors msg x) = (r, t) := ⟨_, _, rfl⟩
  have hctx := contextsOf_getElem? x.staged hi (providedHeaders msg x)
  rw [final_uowEvents hn hall hbody] at ha
  obtain henter | hexit := List.mem_append.mp ha
  · obtain ⟨-, c, hc, hmem⟩ := enterTrace_effect henter
    rw [Nat.sub_zero, workContexts, hctx] at hc
    cases hc
    simp [publisher_enter_effects] at hmem
  · obtain ⟨c, e, hc, -, hmem⟩ := exitTrace_effect hexit
    rw [mem_exitOrder, workContexts, hctx] at hc
    cases hc
    simp only [messageBusPublisherInterceptor, Context.ofGenerator_exit_effects] at hmem
    obtain hnil | hsent := publisherAfter_adds env atEnd _ e [] a hmem
    · simp at hnil
    · exact hsent

/-- A message sent by the handler is free of retry headers exactly where the delivery
being processed is. -/
theorem child_fresh_iff (hn : getRetryCount msg.headers = some n)
    (hall : AllEnter (workContexts interceptors msg x)) (hs : NoRetrySource interceptors x)
    {p : Nat} {atEnd : Bool} {env : ConnectionEnv}
    (hi : interceptors[p]? = some (messageBusPublisherInterceptor atEnd env)) {a : Effect}
    (ha : .effect (p + 1) a ∈ uowEvents (final spec interceptors msg x).log) {h : Headers}
    (hh : sentHeaders a = some h) : ¬CarriesRetry h ↔ ¬CarriesRetry msg.headers.scalars := by
  have hsent := publisher_effect hn hall hi ha
  have heq : ∀ k ∈ retryNames, h k = msg.headers.scalars k := by
    intro k hk
    obtain hk' | hk' := hsent h hh k hk
    · rw [hk', implicit_retry hs hk]
    · rw [hk', implicit_retry hs hk, scalars_filter]
  have hcarries : CarriesRetry h ↔ CarriesRetry msg.headers.scalars := by
    constructor
    · rintro ⟨k, hk, hsome⟩
      exact ⟨k, hk, by rw [← heq k hk]; exact hsome⟩
    · rintro ⟨k, hk, hsome⟩
      exact ⟨k, hk, by rw [heq k hk]; exact hsome⟩
  exact not_congr hcarries

end Children

def tracedStack : List Interceptor :=
  [observabilityInterceptor ⟨some (.str "00-trace-span-01"), none, none⟩,
    messageBusPublisherInterceptor true {}]

/-- A handler that publishes one message and delays another. -/
def publishing : Execution where
  staged := [.publish ⟨"user.created", [], false⟩, .delay ⟨"user.welcome", [], true⟩ 60 0 {}]

/-- The fourth delivery of a message. -/
def retriedDelivery : Delivery :=
  { plainDelivery with headers := Headers.empty.set xRetryCount (.int 3) }

/-- The traced stack publishes no message with a retry source. -/
theorem tracedStack_noRetrySource : NoRetrySource tracedStack publishing := by
  refine ⟨fun k _ => rfl, ?_⟩
  intro i hi k hk
  simp only [tracedStack, List.mem_cons, List.not_mem_nil, or_false] at hi
  obtain rfl | rfl := hi
  · exact tracingHeaders_retry ⟨some (.str "00-trace-span-01"), none, none⟩ hk
  · rfl

/-- No interceptor of the traced stack refuses the delivery. -/
theorem tracedStack_enters (msg : Delivery) :
    AllEnter (workContexts tracedStack msg publishing) := by
  intro c hc
  simp only [workContexts, contextsOf, interceptAll, tracedStack, List.mem_cons, List.not_mem_nil,
    or_false] at hc
  obtain rfl | rfl | rfl := hc <;> rfl

/-- Both children of a retried delivery start with its retry count. -/
theorem retried_parent_leaks : (∃ m : Outgoing,
      .effect 2 (.published m) ∈ uowEvents
        (final timedSpec tracedStack retriedDelivery publishing).log ∧
        m.headers xRetryCount = some (.int 3)) ∧
    (∃ d : DelayedMessageData,
      .effect 2 (.scheduled d) ∈ uowEvents
        (final timedSpec tracedStack retriedDelivery publishing).log ∧
        (d.headers.getD Headers.empty) xRetryCount = some (.int 3)) := by
  refine ⟨⟨_, List.mem_of_getElem? (i := 4) rfl, ?_⟩, ⟨_, List.mem_of_getElem? (i := 5) rfl, ?_⟩⟩
  · rfl
  · rfl

/-- What the handler of a first delivery publishes has no retry count. -/
theorem first_delivery_children_fresh : ∃ m : Outgoing,
    .effect 2 (.published m) ∈ uowEvents
      (final timedSpec tracedStack plainDelivery publishing).log ∧
      ¬CarriesRetry m.headers := by
  have hmem : ∃ m : Outgoing, .effect 2 (.published m) ∈
      uowEvents (final timedSpec tracedStack plainDelivery publishing).log :=
    ⟨_, List.mem_of_getElem? (i := 4) rfl⟩
  obtain ⟨m, hm⟩ := hmem
  refine ⟨m, hm, (child_fresh_iff (n := 0) (p := 1) rfl (tracedStack_enters _)
    tracedStack_noRetrySource rfl hm rfl).mpr ?_⟩
  rintro ⟨k, -, hk⟩
  cases hk

end ChildHeaders

import Mathlib.Data.List.Basic
import Mathlib.Data.List.DropRight
import Mathlib.Logic.Function.Basic
import Jararaca.InboundTrace

/-!
# State carried in the ASGI scope through a stack of middlewares

`ResponseStartedMarker`, `TraceResponseHeaderMiddleware` and `root_setup` of the tracing provider
share values through the scope of a request, which is a mutable dictionary.
`InboundTraceContextMiddleware` may hand on a copy of it. The model therefore has dictionary
objects, and every middleware remembers the object it was called with. Traceparents are their
latin-1 bytes, empty where a span has none.
-/
namespace ScopeStacks

open Messages (Bytes)
open InboundTrace (Header Scope TrustPredicate latin1 bytesLower strLower isConnection
  inboundTraceContext)

/-- The keys that the request code and the middlewares write, and what the server put there. -/
structure Carried (φ : Type) where
  responseStarted : Option Bool
  traceparent : Option Bytes
  rest : φ

/-- The dictionaries by their identity. -/
abbrev Objects (φ : Type) := Nat → Scope (Carried φ)

inductive Middleware where
  | responseStartedMarker
  | traceResponseHeader
  | inboundTraceContext
  | httpResponseEvent
deriving DecidableEq

open Middleware (responseStartedMarker traceResponseHeader httpResponseEvent)

/-- The four in the order in which a request passes them. -/
structure Order where
  stack : List Middleware
  perm : stack.Perm [responseStartedMarker, traceResponseHeader, .inboundTraceContext,
    httpResponseEvent]

section Writes

variable {φ : Type}

def setStarted (o : Nat) (flag : Bool) (objects : Objects φ) : Objects φ :=
  Function.update objects o
    { objects o with rest := { (objects o).rest with responseStarted := some flag } }

def setTraceparent (o : Nat) (traceparent : Bytes) (objects : Objects φ) : Objects φ :=
  Function.update objects o
    { objects o with rest := { (objects o).rest with traceparent := some traceparent } }

end Writes

/-- What stands when the application is called: the dictionaries, the one it is called with, and
the `send_wrapper`s with theirs, the innermost first. -/
structure Entered (φ : Type) where
  objects : Objects φ
  fresh : Nat
  scope : Nat
  wrappers : List (Middleware × Nat)

variable {φ : Type}

/-- Whether `InboundTraceContextMiddleware` hands on a copy. -/
def copies (trust : TrustPredicate (Carried φ)) (s : Scope (Carried φ)) : Bool :=
  isConnection s && !trust s && !(s.headers.getD []).isEmpty

/-- The way in through one middleware. `HttpResponseEventMiddleware` records on its span only. -/
def enter (trust : TrustPredicate (Carried φ)) (e : Entered φ) : Middleware → Entered φ
  | responseStartedMarker =>
    if (e.objects e.scope).type = "http" then
      { e with
        objects := setStarted e.scope false e.objects
        wrappers := (responseStartedMarker, e.scope) :: e.wrappers }
    else e
  | traceResponseHeader =>
    if (e.objects e.scope).type = "http" then
      { e with wrappers := (traceResponseHeader, e.scope) :: e.wrappers }
    else e
  | .inboundTraceContext =>
    if copies trust (e.objects e.scope) then
      { e with
        objects := Function.update e.objects e.fresh (inboundTraceContext trust (e.objects e.scope))
        fresh := e.fresh + 1
        scope := e.fresh }
    else e
  | httpResponseEvent => e

/-- `TraceResponseHeaderMiddleware.__init__`; the name is the latin-1 text of `header_name`. -/
structure TraceResponseHeader where
  headerName : Bytes
  overwrite : Bool
  exposeViaCors : Bool

def corsExposeHeaders : Bytes := latin1 "access-control-expose-headers"

def corsAllowOrigin : Bytes := latin1 "access-control-allow-origin"

def hasHeader (headers : List Header) (name : Bytes) : Bool :=
  headers.any fun h => decide (bytesLower h.1 = name)

/-- `str.strip` on latin-1 characters. -/
def strip (text : Bytes) : Bytes :=
  let space := fun b : UInt8 => decide (b ∈ [9, 10, 11, 12, 13, 28, 29, 30, 31, 32, 133, 160])
  (text.dropWhile space).rdropWhile space

namespace TraceResponseHeader

variable (m : TraceResponseHeader)

def headerNameBytes : Bytes := bytesLower m.headerName

/-- The names that `access-control-expose-headers` already has. -/
def exposed (headers : List Header) : List Bytes :=
  (headers.filter fun h => decide (bytesLower h.1 = corsExposeHeaders)).flatMap fun h =>
    ((h.2.splitOn 44).map strip).filter fun part => !part.isEmpty

def exposeHeader (headers : List Header) : List Header :=
  if hasHeader headers corsAllowOrigin then
    let names := exposed headers
    let names := if names.any fun name => decide (strLower name = m.headerName) then names
      else names ++ [m.headerName]
    (headers.filter fun h => decide (bytesLower h.1 ≠ corsExposeHeaders)) ++
      [(corsExposeHeaders, (latin1 ", ").intercalate names)]
  else headers

/-- `resolve_scope_traceparent`, with the traceparent of the fallback span. -/
def resolveScopeTraceparent (s : Scope (Carried φ)) (fallback : Bytes) : Bytes :=
  match s.rest.traceparent with
  | none => fallback
  | some value => if value = [] then fallback else value

/-- `apply`, on the headers of the message. -/
def apply (s : Scope (Carried φ)) (entrySpan : Bytes) (headers : List Header) : List Header :=
  if !m.overwrite && hasHeader headers m.headerNameBytes then headers
  else
    let traceparent := resolveScopeTraceparent s entrySpan
    if traceparent = [] then headers
    else
      let headers := (headers.filter fun h => decide (bytesLower h.1 ≠ m.headerNameBytes)) ++
        [(m.headerNameBytes, traceparent)]
      if m.exposeViaCors then m.exposeHeader headers else headers

def values (headers : List Header) : List Bytes :=
  (headers.filter fun h => decide (bytesLower h.1 = m.headerNameBytes)).map Prod.snd

end TraceResponseHeader

/-- An http request: the scope the server made for it, the traceparent of the span that was
current as it came in and that of the root span `root_setup` starts for it. -/
structure Request (φ : Type) where
  headers : Option (List Header)
  rest : φ
  entrySpan : Bytes
  rootSpan : Bytes

def Request.scope (r : Request φ) : Scope (Carried φ) where
  type := "http"
  headers := r.headers
  rest := { responseStarted := none, traceparent := none, rest := r.rest }

/-- The way in through the whole stack. -/
def Request.entered (r : Request φ) (trust : TrustPredicate (Carried φ))
    (order : Order) : Entered φ :=
  order.stack.foldl (enter trust)
    { objects := fun _ => r.scope, fresh := 1, scope := 0, wrappers := [] }

inductive Message where
  | start (headers : List Header)
  | body
deriving DecidableEq

/-- What the code inside the stack does. -/
inductive Action where
  | rootSetup
  | send (message : Message)
deriving DecidableEq

structure Served (φ : Type) where
  objects : Objects φ
  sent : List Message

/-- `http.response.start` on its way out through the wrappers. -/
def sendStart (m : TraceResponseHeader) (entrySpan : Bytes) :
    List (Middleware × Nat) → Objects φ → List Header → Objects φ × List Header
  | [], objects, headers => (objects, headers)
  | (responseStartedMarker, o) :: wrappers, objects, headers =>
    sendStart m entrySpan wrappers (setStarted o true objects) headers
  | (traceResponseHeader, o) :: wrappers, objects, headers =>
    sendStart m entrySpan wrappers objects (m.apply (objects o) entrySpan headers)
  | (_, _) :: wrappers, objects, headers => sendStart m entrySpan wrappers objects headers

section Runs

variable (m : TraceResponseHeader) (trust : TrustPredicate (Carried φ)) (r : Request φ)
  (order : Order)

/-- One action inside the stack; `request.scope` is the dictionary the application was called
with. -/
def step (e : Entered φ) (served : Served φ) : Action → Served φ
  | .rootSetup => { served with objects := setTraceparent e.scope r.rootSpan served.objects }
  | .send .body => { served with sent := served.sent ++ [.body] }
  | .send (.start headers) =>
    let out := sendStart m r.entrySpan e.wrappers served.objects headers
    { objects := out.1, sent := served.sent ++ [.start out.2] }

def run (actions : List Action) : Served φ :=
  actions.foldl (step m r (r.entered trust order))
    { objects := (r.entered trust order).objects, sent := [] }

/-- What the cancellation guard reads from `request.scope`. -/
def guardFlag (actions : List Action) : Option Bool :=
  ((run m trust r order actions).objects (r.entered trust order).scope).rest.responseStarted

/-- The response gets a trace header of its own: one that is there is not left alone, and the
header is not the CORS list that `expose_header` writes anew. -/
def AddsHeader (headers : List Header) : Prop :=
  (m.overwrite = false → hasHeader headers m.headerNameBytes = false) ∧
    ¬ (m.exposeViaCors = true ∧ m.headerNameBytes = corsExposeHeaders ∧
      hasHeader headers corsAllowOrigin = true)

/-- The values of the trace header once a traceparent has been added; an empty one adds nothing. -/
def withTraceparent (traceparent : Bytes) (headers : List Header) : List Bytes :=
  if traceparent = [] then m.values headers else [traceparent]

/-- The flag is true from the moment the response has started, and the trace header added after
`root_setup` is that of the root span. -/
structure Survives : Prop where
  flag : ∀ before headers after,
    guardFlag m trust r order (before ++ .send (.start headers) :: after) = some true
  header : ∀ before headers, .rootSetup ∈ before → AddsHeader m headers →
    ∃ sent, (run m trust r order (before ++ [.send (.start headers)])).sent =
        (run m trust r order before).sent ++ [.start sent] ∧
      m.values sent = withTraceparent m r.rootSpan headers

end Runs

/-- A middleware stands outside `InboundTraceContextMiddleware`. -/
def Order.outside (order : Order) (x : Middleware) : Bool :=
  decide (x ∈ order.stack.takeWhile fun y => decide (y ≠ .inboundTraceContext))

/-- The scope that `InboundTraceContextMiddleware` is called with. -/
def Request.seen (r : Request φ) (order : Order) : Scope (Carried φ) :=
  { r.scope with rest := { r.scope.rest with
    responseStarted := if order.outside responseStartedMarker then some false else none } }

section Positions

/-- The stack is what is outside `InboundTraceContextMiddleware`, itself, and what is inside. -/
theorem Order.split (order : Order) :
    ∃ pre post, order.stack = pre ++ .inboundTraceContext :: post ∧
    .inboundTraceContext ∉ pre ∧ .inboundTraceContext ∉ post ∧
    (∀ x, order.outside x = true ↔ x ∈ pre) ∧
    ∀ x, x ≠ .inboundTraceContext → List.count x pre + List.count x post = 1 := by
  have hmem : .inboundTraceContext ∈ order.stack := order.perm.mem_iff.mpr (by simp)
  obtain ⟨pre, post, hstack, hpre⟩ := List.eq_append_cons_of_mem hmem
  have hcount : ∀ x, List.count x order.stack = 1 := by
    intro x
    rw [order.perm.count_eq]
    cases x <;> rfl
  have hpost : .inboundTraceContext ∉ post := by
    have hone := hcount .inboundTraceContext
    rw [hstack, List.count_append, List.count_cons_self] at hone
    rw [← List.count_eq_zero]
    omega
  refine ⟨pre, post, hstack, hpre, hpost, ?_, ?_⟩
  · intro x
    have htake : (order.stack.takeWhile fun y => decide (y ≠ .inboundTraceContext)) = pre := by
      rw [hstack, List.takeWhile_append_of_pos]
      · simp
      · intro y hy
        have hne : y ≠ .inboundTraceContext := by
          rintro rfl
          exact hpre hy
        simp [hne]
    rw [Order.outside, htake, decide_eq_true_eq]
  · intro x hx
    have hone := hcount x
    rw [hstack, List.count_append, List.count_cons_of_ne (Ne.symm hx)] at hone
    exact hone

end Positions

section Entering

variable {trust : TrustPredicate (Carried φ)}

/-- The wrappers that middlewares leave which are all called with one dictionary. -/
def wrappersOf (o : Nat) (stack : List Middleware) : List (Middleware × Nat) :=
  ((stack.filter fun x =>
    decide (x = responseStartedMarker ∨ x = traceResponseHeader)).map fun x => (x, o)).reverse

theorem wrappersOf_cons (o : Nat) (x : Middleware) (stack : List Middleware) :
    wrappersOf o (x :: stack) = wrappersOf o stack ++ wrappersOf o [x] := by
  unfold wrappersOf
  rw [← List.reverse_append, ← List.map_append, ← List.filter_append]
  rfl

/-- Without `InboundTraceContextMiddleware` the dictionary stays the same object; the marker sets
its flag. -/
theorem enter_others (stack : List Middleware) (hstack : .inboundTraceContext ∉ stack)
    (e : Entered φ)
    (hhttp : (e.objects e.scope).type = "http") :
    stack.foldl (enter trust) e =
      { e with
        objects :=
          if responseStartedMarker ∈ stack then setStarted e.scope false e.objects else e.objects
        wrappers := wrappersOf e.scope stack ++ e.wrappers } := by
  induction stack generalizing e with
  | nil => rfl
  | cons x stack ih =>
    have hrest : .inboundTraceContext ∉ stack := fun h => hstack (List.mem_cons_of_mem x h)
    rw [List.foldl_cons, wrappersOf_cons]
    cases x with
    | responseStartedMarker =>
      have henter : enter trust e responseStartedMarker =
          { e with
            objects := setStarted e.scope false e.objects
            wrappers := (responseStartedMarker, e.scope) :: e.wrappers } := if_pos hhttp
      rw [henter, ih hrest]
      · have htwice : setStarted e.scope false (setStarted e.scope false e.objects) =
            setStarted e.scope false e.objects := by simp [setStarted]
        simp [htwice, wrappersOf]
      · simpa [setStarted] using hhttp
    | traceResponseHeader =>
      have henter : enter trust e traceResponseHeader =
          { e with wrappers := (traceResponseHeader, e.scope) :: e.wrappers } := if_pos hhttp
      rw [henter, ih hrest]
      · simp [wrappersOf]
      · exact hhttp
    | inboundTraceContext => exact absurd List.mem_cons_self hstack
    | httpResponseEvent =>
      rw [show enter trust e httpResponseEvent = e from rfl, ih hrest e hhttp]
      simp [wrappersOf]

end Entering

section Entered

variable (trust : TrustPredicate (Carried φ)) (r : Request φ) (order : Order)

theorem mem_wrappersOf {o i : Nat} {x : Middleware}
    (hx : x = responseStartedMarker ∨ x = traceResponseHeader)
    (stack : List Middleware) : (x, i) ∈ wrappersOf o stack ↔ x ∈ stack ∧ i = o := by
  unfold wrappersOf
  rw [List.mem_reverse, List.mem_map]
  constructor
  · rintro ⟨y, hy, heq⟩
    cases heq
    exact ⟨(List.mem_filter.mp hy).1, rfl⟩
  · rintro ⟨hmem, rfl⟩
    exact ⟨x, List.mem_filter.mpr ⟨hmem, decide_eq_true hx⟩, rfl⟩

theorem count_wrappersOf (o : Nat) (stack : List Middleware) :
    ((wrappersOf o stack).map Prod.fst).count traceResponseHeader =
      stack.count traceResponseHeader := by
  unfold wrappersOf
  rw [List.map_reverse, List.map_map, List.count_reverse]
  have hid : (Prod.fst ∘ fun x : Middleware => (x, o)) = id := rfl
  rw [hid, List.map_id, List.count_filter (by decide)]

/-- The stack as the application finds it. A middleware outside was called with the dictionary of
the server, one inside with the application's. -/
structure EnteredSpec (e : Entered φ) : Prop where
  scope : e.scope = if copies trust (r.seen order) then 1 else 0
  place : ∀ x i, x = responseStartedMarker ∨ x = traceResponseHeader →
    ((x, i) ∈ e.wrappers ↔ i = if order.outside x then 0 else e.scope)
  once : (e.wrappers.map Prod.fst).count traceResponseHeader = 1
  traceparent : ∀ i, (e.objects i).rest.traceparent = none
  started : ∀ i, (e.objects i).rest.responseStarted ≠ some true

theorem setStarted_traceparent (o i : Nat) (flag : Bool) (objects : Objects φ) :
    (setStarted o flag objects i).rest.traceparent = (objects i).rest.traceparent := by
  unfold setStarted
  by_cases h : i = o
  · rw [h, Function.update_self]
  · rw [Function.update_of_ne h]

theorem setStarted_started (o i : Nat) (flag : Bool) (objects : Objects φ) :
    (setStarted o flag objects i).rest.responseStarted =
      if i = o then some flag else (objects i).rest.responseStarted := by
  unfold setStarted
  by_cases h : i = o
  · rw [h, Function.update_self, if_pos rfl]
  · rw [Function.update_of_ne h, if_neg h]

/-- The dictionaries before the way in, and after the middlewares outside. -/
theorem outside_objects {pre : List Middleware} (houtside : ∀ x, order.outside x = true ↔ x ∈ pre) :
    (if responseStartedMarker ∈ pre then setStarted 0 false
      (fun _ => r.scope) else fun _ => r.scope) 0 =
      r.seen order := by
  by_cases hmem : responseStartedMarker ∈ pre
  · rw [if_pos hmem, Request.seen, if_pos ((houtside _).mpr hmem)]
    simp [setStarted]
  · rw [if_neg hmem, Request.seen, if_neg fun h => hmem ((houtside _).mp h)]
    rfl

/-- No root span is known, and no response has started. -/
def Quiet (objects : Objects φ) : Prop :=
  ∀ i, (objects i).rest.traceparent = none ∧ (objects i).rest.responseStarted ≠ some true

theorem quiet_setStarted {objects : Objects φ} (h : Quiet objects) (o : Nat) :
    Quiet (setStarted o false objects) := by
  intro i
  rw [setStarted_traceparent, setStarted_started]
  refine ⟨(h i).1, ?_⟩
  split
  · decide
  · exact (h i).2

theorem quiet_marked {objects : Objects φ} (h : Quiet objects) (o : Nat) (p : Prop) [Decidable p] :
    Quiet (if p then setStarted o false objects else objects) := by
  split
  · exact quiet_setStarted h o
  · exact h

theorem enter_same {e : Entered φ} (h : copies trust (e.objects e.scope) = false) :
    enter trust e .inboundTraceContext = e := if_neg (by rw [h]; decide)

theorem enter_copy {e : Entered φ} (h : copies trust (e.objects e.scope) = true) :
    enter trust e .inboundTraceContext =
      { e with
        objects := Function.update e.objects e.fresh (inboundTraceContext trust (e.objects e.scope))
        fresh := e.fresh + 1
        scope := e.fresh } := if_pos h

/-- A copy has what the dictionary had. -/
theorem quiet_copy {objects : Objects φ} (h : Quiet objects) (o i : Nat) :
    Quiet (Function.update objects i (inboundTraceContext trust (objects o))) := by
  intro j
  by_cases hj : j = i
  · rw [hj, Function.update_self, (InboundTrace.inbound_passesOthers trust (objects o)).rest]
    exact h o
  · rw [Function.update_of_ne hj]
    exact h j

/-- After the middlewares outside there is one dictionary still. -/
theorem entered_outside {pre : List Middleware} (hpre : .inboundTraceContext ∉ pre)
    (houtside : ∀ x, order.outside x = true ↔ x ∈ pre) :
    ∃ objects, Quiet objects ∧ objects 0 = r.seen order ∧
      pre.foldl (enter trust)
          { objects := fun _ => r.scope, fresh := 1, scope := 0, wrappers := [] } =
        { objects, fresh := 1, scope := 0, wrappers := wrappersOf 0 pre } := by
  have hstart : Quiet fun _ => r.scope := fun _ => ⟨rfl, by simp [Request.scope]⟩
  refine ⟨_, quiet_marked hstart 0 (responseStartedMarker ∈ pre),
    outside_objects r order houtside, ?_⟩
  rw [enter_others pre hpre _ rfl, List.append_nil]

/-- The middlewares outside wrap the dictionary of the server, those inside the application's. -/
theorem entered_eq {pre post : List Middleware}
    (hstack : order.stack = pre ++ .inboundTraceContext :: post)
    (hpre : .inboundTraceContext ∉ pre) (hpost : .inboundTraceContext ∉ post)
    (houtside : ∀ x, order.outside x = true ↔ x ∈ pre) : ∃ objects fresh, Quiet objects ∧
      r.entered trust order =
        { objects, fresh, scope := if copies trust (r.seen order) then 1 else 0
          wrappers :=
            wrappersOf (if copies trust (r.seen order) then 1 else 0) post ++
              wrappersOf 0 pre } := by
  obtain ⟨objects, hquiet, hseen, hout⟩ := entered_outside trust r order hpre houtside
  have hhttp : (objects 0).type = "http" := by
    rw [hseen]
    rfl
  unfold Request.entered
  rw [hstack, List.foldl_append, List.foldl_cons, hout]
  cases hcopies : copies trust (objects 0) with
  | false =>
    rw [enter_same trust hcopies, enter_others post hpost _ hhttp, ← hseen, hcopies]
    exact ⟨_, _, quiet_marked hquiet 0 (responseStartedMarker ∈ post), rfl⟩
  | true =>
    have hcopied := quiet_copy trust hquiet 0 1
    rw [enter_copy trust hcopies, enter_others post hpost, ← hseen, hcopies]
    · exact ⟨_, _, quiet_marked hcopied 1 (responseStartedMarker ∈ post), rfl⟩
    · change (Function.update objects 1 (inboundTraceContext trust (objects 0)) 1).type = "http"
      rw [Function.update_self]
      exact (InboundTrace.inbound_passesOthers trust (objects 0)).type.trans hhttp

/-- After all the middlewares: one dictionary or two, and which of them each sees. -/
theorem entered_spec : EnteredSpec trust r order (r.entered trust order) := by
  obtain ⟨pre, post, hstack, hpre, hpost, houtside, hcount⟩ := order.split
  obtain ⟨objects, fresh, hquiet, hentered⟩ := entered_eq trust r order hstack hpre hpost houtside
  rw [hentered]
  refine ⟨rfl, ?_, ?_, fun i => (hquiet i).1, fun i => (hquiet i).2⟩
  · intro x i hx
    have hone := hcount x (by rcases hx with rfl | rfl <;> decide)
    rw [List.mem_append, mem_wrappersOf hx, mem_wrappersOf hx]
    by_cases hmem : x ∈ pre
    · have hpos := List.count_pos_iff.mpr hmem
      have hnot : x ∉ post := by
        rw [← List.count_eq_zero]
        omega
      simp [hmem, hnot, (houtside x).mpr hmem]
    · have hzero := List.count_eq_zero.mpr hmem
      have hin : x ∈ post := by
        rw [← List.count_pos_iff]
        omega
      simp [hmem, hin, mt (houtside x).mp hmem]
  · have hone := hcount traceResponseHeader (by decide)
    rw [List.map_append, List.count_append, count_wrappersOf, count_wrappersOf]
    omega

end Entered

section Sending

variable (m : TraceResponseHeader) (entrySpan : Bytes)

theorem sendStart_traceparent (wrappers : List (Middleware × Nat)) (objects : Objects φ)
    (headers : List Header)
    (i : Nat) : ((sendStart m entrySpan wrappers objects headers).1 i).rest.traceparent =
      (objects i).rest.traceparent := by
  induction wrappers generalizing objects headers with
  | nil => rfl
  | cons w wrappers ih =>
    obtain ⟨x, o⟩ := w
    cases x with
    | responseStartedMarker => exact (ih _ _).trans (setStarted_traceparent o i true objects)
    | traceResponseHeader => exact ih _ _
    | inboundTraceContext => exact ih _ _
    | httpResponseEvent => exact ih _ _

/-- A marker writes to the dictionary it was called with. -/
theorem sendStart_started (wrappers : List (Middleware × Nat)) (objects : Objects φ)
    (headers : List Header)
    (i : Nat) : ((sendStart m entrySpan wrappers objects headers).1 i).rest.responseStarted =
      if (responseStartedMarker, i) ∈ wrappers then some true
      else (objects i).rest.responseStarted := by
  induction wrappers generalizing objects headers with
  | nil => rfl
  | cons w wrappers ih =>
    obtain ⟨x, o⟩ := w
    cases x with
    | responseStartedMarker =>
      refine (ih _ _).trans ?_
      rw [setStarted_started]
      by_cases hi : i = o
      · simp [hi]
      · simp [hi]
    | traceResponseHeader => simpa [sendStart] using ih objects _
    | inboundTraceContext => simpa [sendStart] using ih objects headers
    | httpResponseEvent => simpa [sendStart] using ih objects headers

theorem apply_congr {s t : Scope (Carried φ)} (h : s.rest.traceparent = t.rest.traceparent)
    (headers : List Header) :
    m.apply s entrySpan headers = m.apply t entrySpan headers := by
  unfold TraceResponseHeader.apply TraceResponseHeader.resolveScopeTraceparent
  rw [h]

theorem sendStart_untraced {wrappers : List (Middleware × Nat)}
    (h : (wrappers.map Prod.fst).count traceResponseHeader = 0) (objects : Objects φ)
    (headers : List Header) :
    (sendStart m entrySpan wrappers objects headers).2 = headers := by
  induction wrappers generalizing objects headers with
  | nil => rfl
  | cons w wrappers ih =>
    obtain ⟨x, o⟩ := w
    rw [List.map_cons, List.count_cons] at h
    have hrest : (wrappers.map Prod.fst).count traceResponseHeader = 0 := by omega
    cases x with
    | responseStartedMarker => exact ih hrest _ _
    | traceResponseHeader => simp at h
    | inboundTraceContext => exact ih hrest _ _
    | httpResponseEvent => exact ih hrest _ _

/-- The one trace wrapper applies the value of its own dictionary. -/
theorem sendStart_headers {wrappers : List (Middleware × Nat)} {o : Nat}
    (hone : (wrappers.map Prod.fst).count traceResponseHeader = 1)
    (hmem : (traceResponseHeader, o) ∈ wrappers)
    (objects : Objects φ) (headers : List Header) :
    (sendStart m entrySpan wrappers objects headers).2 = m.apply (objects o) entrySpan headers := by
  induction wrappers generalizing objects headers with
  | nil => cases hmem
  | cons w wrappers ih =>
    obtain ⟨x, o'⟩ := w
    rw [List.map_cons, List.count_cons] at hone
    cases x with
    | responseStartedMarker =>
      have htail : (traceResponseHeader, o) ∈ wrappers := by simpa using hmem
      refine (ih (by simpa using hone) htail _ _).trans ?_
      exact apply_congr m entrySpan (setStarted_traceparent o' o true objects) headers
    | traceResponseHeader =>
      have hnone : (wrappers.map Prod.fst).count traceResponseHeader = 0 := by simpa using hone
      have hhere : o = o' := by
        rcases List.mem_cons.mp hmem with heq | htail
        · exact congrArg Prod.snd heq
        · have hfst : traceResponseHeader ∈ wrappers.map Prod.fst :=
            List.mem_map.mpr ⟨_, htail, rfl⟩
          exact absurd hfst (List.count_eq_zero.mp hnone)
      rw [hhere]
      exact sendStart_untraced m entrySpan hnone objects _
    | inboundTraceContext => exact ih (by simpa using hone) (by simpa using hmem) objects headers
    | httpResponseEvent => exact ih (by simpa using hone) (by simpa using hmem) objects headers

end Sending

section Headers

variable (m : TraceResponseHeader)

theorem hasHeader_append (headers : List Header) (h : Header) (name : Bytes) :
    hasHeader (headers ++ [h]) name =
      (hasHeader headers name || decide (bytesLower h.1 = name)) := by
  simp [hasHeader]

theorem bytesLower_twice (name : Bytes) : bytesLower (bytesLower name) = bytesLower name := by
  unfold bytesLower
  rw [List.map_map]
  refine List.map_congr_left fun b _ => ?_
  simp only [Function.comp_apply]
  split
  · next hb =>
    rw [if_neg]
    rintro ⟨-, hle⟩
    have h₁ : 65 ≤ b.toNat := UInt8.le_iff_toNat_le.mp hb.1
    have h₂ : b.toNat ≤ 90 := UInt8.le_iff_toNat_le.mp hb.2
    have h₃ : (b + 32).toNat ≤ 90 := UInt8.le_iff_toNat_le.mp hle
    rw [UInt8.toNat_add] at h₃
    simp at h₃
    omega
  · rfl

/-- Writing the CORS list leaves a header of another name alone. -/
theorem values_exposeHeader {headers : List Header}
    (h : m.headerNameBytes = corsExposeHeaders → hasHeader headers corsAllowOrigin = false) :
    m.values (m.exposeHeader headers) = m.values headers := by
  unfold TraceResponseHeader.exposeHeader
  split
  · next hcors =>
    have hne : m.headerNameBytes ≠ corsExposeHeaders := by
      intro heq
      rw [h heq] at hcors
      cases hcors
    have hlower : bytesLower corsExposeHeaders = corsExposeHeaders := by rfl
    have hkept : ∀ h : Header, (decide (bytesLower h.1 = m.headerNameBytes) &&
        decide (bytesLower h.1 ≠ corsExposeHeaders)) =
          decide (bytesLower h.1 = m.headerNameBytes) := by
      intro h
      by_cases hh : bytesLower h.1 = m.headerNameBytes
      · simp [hh, hne]
      · simp [hh]
    unfold TraceResponseHeader.values
    rw [List.filter_append, List.filter_filter, List.map_append]
    simp only [hkept]
    simp [hlower, Ne.symm hne]
  · rfl

/-- Where a header is added, it has the resolved traceparent as its only value. -/
theorem values_apply {headers : List Header} (h : AddsHeader m headers) (s : Scope (Carried φ))
    (entrySpan : Bytes) :
    m.values (m.apply s entrySpan headers) =
      withTraceparent m (TraceResponseHeader.resolveScopeTraceparent s entrySpan) headers := by
  obtain ⟨hfree, hcors⟩ := h
  have hadd : (!m.overwrite && hasHeader headers m.headerNameBytes) = false := by
    cases hover : m.overwrite with
    | true => rfl
    | false => simp [hfree hover]
  unfold TraceResponseHeader.apply withTraceparent
  generalize TraceResponseHeader.resolveScopeTraceparent s entrySpan = traceparent
  simp only [hadd, Bool.false_eq_true, if_false]
  by_cases hempty : traceparent = []
  · rw [if_pos hempty, if_pos hempty]
  · rw [if_neg hempty, if_neg hempty]
    have hlower : bytesLower m.headerNameBytes = m.headerNameBytes := bytesLower_twice m.headerName
    have hvalues :
        m.values ((headers.filter fun h => decide (bytesLower h.1 ≠ m.headerNameBytes)) ++
        [(m.headerNameBytes, traceparent)]) = [traceparent] := by
      unfold TraceResponseHeader.values
      rw [List.filter_append, List.filter_filter]
      simp [hlower]
    split
    · next hexpose =>
      rw [values_exposeHeader m, hvalues]
      intro heq
      have hnone : hasHeader headers corsAllowOrigin = false := by
        cases hallow : hasHeader headers corsAllowOrigin with
        | false => rfl
        | true => exact absurd ⟨hexpose, heq, hallow⟩ hcors
      have hdistinct : corsExposeHeaders ≠ corsAllowOrigin := by
        simp [corsExposeHeaders, corsAllowOrigin, latin1]
      rw [hasHeader_append, hlower, heq]
      simp only [hdistinct, decide_false, Bool.or_false]
      refine List.any_eq_false.mpr fun x hx => ?_
      exact List.any_eq_false.mp hnone x (List.mem_filter.mp hx).1
    · exact hvalues

end Headers

section Results

variable (m : TraceResponseHeader) (trust : TrustPredicate (Carried φ)) (r : Request φ)
  (order : Order)

theorem run_concat (actions : List Action) (a : Action) : run m trust r order (actions ++ [a]) =
    step m r (r.entered trust order) (run m trust r order actions) a := by
  unfold run
  rw [List.foldl_append]
  rfl

/-- `root_setup` writes to the dictionary of the application, and nothing else writes the key. -/
theorem run_traceparent (actions : List Action) (i : Nat) :
    ((run m trust r order actions).objects i).rest.traceparent =
      if i = (r.entered trust order).scope ∧ Action.rootSetup ∈ actions then some r.rootSpan
      else none := by
  induction actions using List.reverseRecOn with
  | nil => simpa [run] using (entered_spec trust r order).traceparent i
  | append_singleton actions a ih =>
    rw [run_concat]
    cases a with
    | rootSetup =>
      simp only [step, setTraceparent, List.mem_append, List.mem_singleton, or_true, and_true]
      by_cases hi : i = (r.entered trust order).scope
      · rw [hi, Function.update_self, if_pos rfl]
      · rw [Function.update_of_ne hi, ih, if_neg fun h => hi h.1, if_neg hi]
    | send message =>
      have hmem : Action.rootSetup ∈ actions ++ [Action.send message] ↔
          Action.rootSetup ∈ actions := by simp
      simp only [hmem]
      cases message with
      | body => exact ih
      | start headers => exact (sendStart_traceparent m r.entrySpan _ _ headers i).trans ih

theorem step_rootSetup_started (e : Entered φ) (served : Served φ) (i : Nat) :
    ((step m r e served .rootSetup).objects i).rest.responseStarted =
      (served.objects i).rest.responseStarted := by
  simp only [step, setTraceparent]
  by_cases hi : i = e.scope
  · rw [hi, Function.update_self]
  · rw [Function.update_of_ne hi]

def starts : Action → Bool
  | .send (.start _) => true
  | _ => false

def calledWith (x : Middleware) : Nat :=
  if order.outside x then 0 else (r.entered trust order).scope

/-- It is that of the application unless the middleware stands outside a copy. -/
theorem calledWith_iff (x : Middleware) :
    calledWith trust r order x = (r.entered trust order).scope ↔
    (order.outside x = true → copies trust (r.seen order) = false) := by
  unfold calledWith
  rw [(entered_spec trust r order).scope]
  cases order.outside x <;> cases copies trust (r.seen order) <;> decide

/-- The flag is set on the dictionary of the marker, by the first start. -/
theorem run_started (actions : List Action) (i : Nat) :
    ((run m trust r order actions).objects i).rest.responseStarted =
      if actions.any starts = true ∧
        i = calledWith trust r order responseStartedMarker then some true
      else ((r.entered trust order).objects i).rest.responseStarted := by
  have hplace : (responseStartedMarker, i) ∈ (r.entered trust order).wrappers ↔
      i = calledWith trust r order responseStartedMarker :=
    (entered_spec trust r order).place responseStartedMarker i (.inl rfl)
  induction actions using List.reverseRecOn with
  | nil => simp [run]
  | append_singleton actions a ih =>
    rw [run_concat, List.any_append]
    cases a with
    | rootSetup =>
      rw [step_rootSetup_started, show [Action.rootSetup].any starts = false from rfl,
        Bool.or_false]
      exact ih
    | send message =>
      cases message with
      | body =>
        rw [show [Action.send .body].any starts = false from rfl, Bool.or_false]
        exact ih
      | start headers =>
        refine (sendStart_started m r.entrySpan _ _ headers i).trans ?_
        by_cases hi : i = calledWith trust r order responseStartedMarker
        · rw [if_pos (hplace.mpr hi), if_pos ⟨by simp [starts], hi⟩]
        · rw [if_neg (mt hplace.mp hi), if_neg fun h => hi h.2, ih, if_neg fun h => hi h.2]

/-- The flag survives where the marker and the application share their dictionary. -/
theorem flag_iff : (∀ (before : List Action) headers after,
      guardFlag m trust r order (before ++ .send (.start headers) :: after) = some true) ↔
    (order.outside responseStartedMarker = true → copies trust (r.seen order) = false) := by
  rw [← calledWith_iff]
  constructor
  · intro hall
    by_contra hne
    have hflag := hall [] [] []
    rw [guardFlag, run_started, if_neg fun h => hne h.2.symm] at hflag
    exact (entered_spec trust r order).started _ hflag
  · intro heq before headers after
    rw [guardFlag, run_started, if_pos ⟨by simp [starts], heq.symm⟩]

/-- What `resolve_scope_traceparent` finds once `root_setup` has run. -/
theorem run_resolve {before : List Action} (hroot : Action.rootSetup ∈ before) :
    TraceResponseHeader.resolveScopeTraceparent
        ((run m trust r order before).objects (calledWith trust r order traceResponseHeader))
          r.entrySpan =
      if calledWith trust r order traceResponseHeader = (r.entered trust order).scope ∧
        r.rootSpan ≠ [] then r.rootSpan
      else r.entrySpan := by
  unfold TraceResponseHeader.resolveScopeTraceparent
  rw [run_traceparent]
  by_cases hscope : calledWith trust r order traceResponseHeader = (r.entered trust order).scope
  · by_cases hempty : r.rootSpan = []
    · simp [hscope, hroot, hempty]
    · simp [hscope, hroot, hempty]
  · simp [hscope]

/-- The start message that leaves the stack. -/
theorem run_start {before : List Action} (headers : List Header) :
    (run m trust r order (before ++ [.send (.start headers)])).sent =
      (run m trust r order before).sent ++
      [.start (m.apply ((run m trust r order before).objects
        (calledWith trust r order traceResponseHeader))
        r.entrySpan headers)] := by
  have hspec := entered_spec trust r order
  have hplace :=
    (hspec.place traceResponseHeader (calledWith trust r order traceResponseHeader)
    (.inr rfl)).mpr rfl
  rw [run_concat]
  simp only [step, sendStart_headers m r.entrySpan hspec.once hplace]

/-- A response without headers tells traceparents apart. -/
theorem withTraceparent_nil {a b : Bytes}
    (h : withTraceparent m a [] = withTraceparent m b []) : a = b := by
  unfold withTraceparent at h
  have hnone : m.values [] = [] := rfl
  rw [hnone] at h
  by_cases ha : a = []
  · by_cases hb : b = []
    · rw [ha, hb]
    · simp [ha, hb] at h
  · by_cases hb : b = []
    · simp [ha, hb] at h
    · simpa [ha, hb] using h

/-- The header survives where the root span's traceparent is the one found. -/
theorem header_iff : (∀ before headers, Action.rootSetup ∈ before → AddsHeader m headers →
      ∃ sent, (run m trust r order (before ++ [.send (.start headers)])).sent =
          (run m trust r order before).sent ++ [.start sent] ∧
        m.values sent = withTraceparent m r.rootSpan headers) ↔
    (r.entrySpan = r.rootSpan ∨
      r.rootSpan ≠ [] ∧ (order.outside traceResponseHeader = true →
        copies trust (r.seen order) = false)) := by
  rw [← calledWith_iff]
  constructor
  · intro hall
    have hadds : AddsHeader m [] := ⟨fun _ => rfl, fun h => by cases h.2.2⟩
    obtain ⟨sent, hsent, hvalues⟩ := hall [.rootSetup] [] (by simp) hadds
    rw [run_start, List.append_cancel_left_eq] at hsent
    cases hsent
    rw [values_apply m hadds, run_resolve m trust r order (by simp)] at hvalues
    have hfound := withTraceparent_nil m hvalues
    by_cases hroot :
      calledWith trust r order traceResponseHeader = (r.entered trust order).scope ∧ r.rootSpan ≠ []
    · exact .inr ⟨hroot.2, hroot.1⟩
    · rw [if_neg hroot] at hfound
      exact .inl hfound
  · intro hcond before headers hroot hadds
    refine ⟨_, run_start m trust r order headers, ?_⟩
    rw [values_apply m hadds, run_resolve m trust r order hroot]
    rcases hcond with heq | ⟨hne, hsame⟩
    · rw [heq, ite_self]
    · rw [if_pos ⟨hsame, hne⟩]

/-- The state carried in the scope survives just where neither the marker nor the trace header
stands outside a copy of the scope, and the root span has a traceparent to show. -/
theorem scope_state_survives_iff : Survives m trust r order ↔
    (order.outside responseStartedMarker = true → copies trust (r.seen order) = false) ∧
    (r.entrySpan = r.rootSpan ∨
      r.rootSpan ≠ [] ∧ (order.outside traceResponseHeader = true →
        copies trust (r.seen order) = false)) := by
  rw [← flag_iff m trust r order, ← header_iff m trust r order]
  constructor
  · intro h
    exact ⟨h.flag, h.header⟩
  · rintro ⟨hflag, hheader⟩
    exact ⟨hflag, hheader⟩

end Results

/-- A browser request with a header, that no one trusts. -/
def browserRequest : Request Unit where
  headers := some [(latin1 "origin", latin1 "browser.example")]
  rest := ()
  entrySpan := latin1 "00-1-1-01"
  rootSpan := latin1 "00-1-2-01"

def defaultHeader : TraceResponseHeader where
  headerName := latin1 "traceparent"
  overwrite := false
  exposeViaCors := true

/-- `InboundTraceContextMiddleware` added first, and added last. -/
def inboundInside : Order where
  stack := [responseStartedMarker, traceResponseHeader, httpResponseEvent, .inboundTraceContext]
  perm := by decide

def inboundOutside : Order where
  stack := [.inboundTraceContext, responseStartedMarker, traceResponseHeader, httpResponseEvent]
  perm := by decide

/-- With the boundary inside, the guard still reads false after the start and the response shows
the span of the server. With the boundary outside, neither is so. -/
theorem inner_boundary_loses_state :
    guardFlag defaultHeader InboundTrace.trustNoOne browserRequest inboundInside
        [.rootSetup, .send (.start [])] = some false ∧
    (run defaultHeader InboundTrace.trustNoOne browserRequest inboundInside
      [.rootSetup, .send (.start [])]).sent =
      [.start [(latin1 "traceparent", browserRequest.entrySpan)]] ∧
    guardFlag defaultHeader InboundTrace.trustNoOne browserRequest inboundOutside
        [.rootSetup, .send (.start [])] = some true ∧
    (run defaultHeader InboundTrace.trustNoOne browserRequest inboundOutside
      [.rootSetup, .send (.start [])]).sent =
      [.start [(latin1 "traceparent", browserRequest.rootSpan)]] ∧
    ¬ Survives defaultHeader InboundTrace.trustNoOne browserRequest inboundInside := by
  refine ⟨by decide +kernel, by decide +kernel, by decide +kernel, by decide +kernel, ?_⟩
  intro h
  exact absurd (h.flag [.rootSetup] [] []) (by decide +kernel)

end ScopeStacks

import Mathlib.Data.List.Basic
import Jararaca.Messages

/-!
# The trust boundary for inbound trace context

The two halves of the boundary in observability/inbound_trace.py: the propagator that does not
extract from an untrusted connection, and the middleware that renames the trace headers before
`root_setup` of the tracing provider reads them. Header names and values are latin-1 bytes. The
extractors of OpenTelemetry are parameters, the header mapping of Starlette is written out.
-/
namespace InboundTrace

open Messages (Bytes)

abbrev Header := Bytes × Bytes

def latin1 (s : String) : Bytes := s.toList.map fun c => UInt8.ofNat c.toNat

def bytesLower (name : Bytes) : Bytes := name.map fun b => if 65 ≤ b ∧ b ≤ 90 then b + 32 else b

/-- One character of `str.lower` on a text of latin-1 characters. -/
def charLower (b : UInt8) : UInt8 :=
  if (65 ≤ b ∧ b ≤ 90) ∨ (192 ≤ b ∧ b ≤ 222 ∧ b ≠ 215) then b + 32 else b

def strLower (name : Bytes) : Bytes := name.map charLower

/-- `TRACE_CONTEXT_HEADERS`, `CLAIMED_HEADER_PREFIX`. -/
def traceContextHeaders : List Bytes :=
  [latin1 "traceparent", latin1 "tracestate", latin1 "baggage"]

def claimedHeaderPrefix : Bytes := latin1 "x-claimed-"

/-- An ASGI scope: its type, its headers where it has the key, and the rest of it. -/
structure Scope (φ : Type) where
  type : String
  headers : Option (List Header)
  rest : φ

abbrev TrustPredicate (φ : Type) := Scope φ → Bool

def isTrace (h : Header) : Bool := decide (bytesLower h.1 ∈ traceContextHeaders)

def disarmTraceHeaders (headers : List Header) : List Header :=
  headers.map fun h => if isTrace h then (claimedHeaderPrefix ++ bytesLower h.1, h.2) else h

/-- `scope["type"] in ("http", "websocket")`. -/
def isConnection {φ : Type} (s : Scope φ) : Bool := s.type == "http" || s.type == "websocket"

def isAsgiConnectionScope {φ : Type} (s : Scope φ) : Bool := isConnection s && s.headers.isSome

/-- `InboundTraceContextMiddleware.__call__`: the scope it hands on. -/
def inboundTraceContext {φ : Type} (trust : TrustPredicate φ) (s : Scope φ) : Scope φ :=
  if isConnection s && !trust s then
    match s.headers with
    | some (h :: hs) => { s with headers := some (disarmTraceHeaders (h :: hs)) }
    | _ => s
  else s

section Predicates

variable {φ : Type}

def getHeader (s : Scope φ) (name : String) : Option Bytes :=
  ((s.headers.getD []).find? fun h =>
    decide (bytesLower h.1 = bytesLower (latin1 name))).map Prod.snd

def trustNoOne : TrustPredicate φ := fun _ => false

def trustRequestsWithoutOrigin (allowedOrigins : List String) : TrustPredicate φ := fun s =>
  match getHeader s "origin" with
  | none => true
  | some origin => decide (origin ∈ allowedOrigins.map latin1)

def trustWhenHeaderMatches (name value : String) : TrustPredicate φ := fun s =>
  match getHeader s name with
  | none => false
  | some presented => decide (presented = latin1 value)

def trustAnyOf (predicates : List (TrustPredicate φ)) : TrustPredicate φ := fun s =>
  predicates.any fun candidate => candidate s

end Predicates

/-- A propagator: one that knows nothing of trust, or a `TrustAwareTextMapPropagator`. -/
inductive Propagator (φ γ : Type) where
  | plain (extract : Scope φ → Option γ → γ)
  | trustAware (trust : TrustPredicate φ) (wrapped : Propagator φ γ)

variable {φ γ : Type}

/-- `extract` with a scope as the carrier; `empty` is `Context()`. -/
def Propagator.extract (empty : γ) : Propagator φ γ → Scope φ → Option γ → γ
  | .plain extract, s, context => extract s context
  | .trustAware trust wrapped, s, context =>
    if isAsgiConnectionScope s && !trust s then context.getD empty
    else wrapped.extract empty s context

/-- How many trust layers a propagator has. -/
def Propagator.layers : Propagator φ γ → Nat
  | .plain _ => 0
  | .trustAware _ wrapped => wrapped.layers + 1

/-- `install_inbound_trace_boundary`, on the global propagator. -/
def installInboundTraceBoundary (trust : TrustPredicate φ) : Propagator φ γ → Propagator φ γ
  | .plain extract => .trustAware trust (.plain extract)
  | .trustAware _ wrapped => .trustAware trust wrapped

/-- A dictionary of latin-1 texts. -/
abbrev Dict := Bytes → Option Bytes

/-- `Headers.__getitem__` of Starlette: the first header whose name is the key in lower case. -/
def headersGet (raw : List Header) (key : Bytes) : Option Bytes :=
  (raw.find? fun h => decide (h.1 = strLower key)).map Prod.snd

/-- `dict(request.headers)`: every name as it is there with what `__getitem__` finds for it,
and none where that raises. -/
def headersDict (raw : List Header) : Option Dict :=
  if ∀ h ∈ raw, (headersGet raw h.1).isSome then
    some fun key => if key ∈ raw.map Prod.fst then headersGet raw key else none
  else none

/-- `{key: value for ... if key.lower().startswith(...)}`. -/
def startingWith (prefixes : List Bytes) (d : Dict) : Dict := fun key =>
  if prefixes.any fun p => p.isPrefixOf (strLower key) then d key else none

/-- The incoming context of `root_setup` for a request or a websocket: the ambient one where a
span of the boundary is recording, else what the two extractors find. -/
def rootSetup (traceContext : Dict → γ) (baggage : Dict → γ → γ) (ambient : Option γ)
    (s : Scope φ) : Option γ := do
  let raw ← s.headers
  let headers ← headersDict raw
  match ambient with
  | some context => some context
  | none =>
    let ctx := traceContext (startingWith [latin1 "traceparent", latin1 "tracestate"] headers)
    some (baggage (startingWith [latin1 "baggage"] headers) ctx)

def otherHeaders (headers : List Header) : List Header := headers.filter fun h => !isTrace h

/-- Two scopes that differ in trace headers only: in how many there are, where, how they are
spelled and what they say. -/
structure SameButTrace (s t : Scope φ) : Prop where
  type : s.type = t.type
  rest : s.rest = t.rest
  headers : s.headers.map otherHeaders = t.headers.map otherHeaders

/-- A predicate that does not read trace headers. -/
def ReadsNoTrace (trust : TrustPredicate φ) : Prop := ∀ s t, SameButTrace s t → trust s = trust t

/-- The names that the middleware gives. -/
def claimedNames : List Bytes := traceContextHeaders.map fun name => claimedHeaderPrefix ++ name

/-- No other header has one of these names in upper case. ASGI promises this of every name. -/
def ClaimedLower (s : Scope φ) : Prop := ∀ raw, s.headers = some raw →
  ∀ h ∈ otherHeaders raw, strLower h.1 ∈ claimedNames → strLower h.1 = h.1

section Names

theorem claimed_mem {h : Header} (hh : isTrace h = true) :
    claimedHeaderPrefix ++ bytesLower h.1 ∈ claimedNames :=
  List.mem_map_of_mem (of_decide_eq_true hh)

/-- A claimed name is in lower case, and is no name of trace context. -/
theorem claimed_facts : ∀ name ∈ claimedNames, strLower name = name ∧
    ∀ p ∈ traceContextHeaders, p.isPrefixOf name = false := by
  decide +kernel

end Names

section Disarmed

theorem disarm_cons (h : Header) (headers : List Header) : disarmTraceHeaders (h :: headers) =
    (if isTrace h then (claimedHeaderPrefix ++ bytesLower h.1, h.2) else h) ::
      disarmTraceHeaders headers := rfl

/-- A search that skips the claimed names finds what is there of the others. -/
theorem find_disarm (headers : List Header) {name : Bytes} (hname : name ∉ claimedNames) :
    (disarmTraceHeaders headers).find? (fun h => decide (h.1 = name)) =
      (otherHeaders headers).find? fun h => decide (h.1 = name) := by
  induction headers with
  | nil => rfl
  | cons h headers ih =>
    rw [disarm_cons]
    cases hh : isTrace h with
    | true =>
      have hne : claimedHeaderPrefix ++ bytesLower h.1 ≠ name := by
        rintro rfl
        exact hname (claimed_mem hh)
      simp [otherHeaders, hh, hne, ih]
    | false =>
      by_cases hn : h.1 = name
      · simp [otherHeaders, hh, hn]
      · simp only [hh, Bool.false_eq_true, if_false, List.find?_cons, hn, decide_false, ih,
          otherHeaders,
          List.filter_cons, Bool.not_false, if_true]

theorem mem_disarm_names (headers : List Header) {name : Bytes} (hname : name ∉ claimedNames) :
    name ∈ (disarmTraceHeaders headers).map Prod.fst ↔
      name ∈ (otherHeaders headers).map Prod.fst := by
  have hfind : ∀ l : List Header, name ∈ l.map Prod.fst ↔
      (l.find? fun h => decide (h.1 = name)).isSome = true := by
    intro l
    rw [List.find?_isSome, List.mem_map]
    simp only [decide_eq_true_eq]
  rw [hfind, hfind, find_disarm headers hname]

theorem headersGet_isSome (raw : List Header) (key : Bytes) :
    (headersGet raw key).isSome = true ↔ strLower key ∈ raw.map Prod.fst := by
  unfold headersGet
  rw [Option.isSome_map, List.find?_isSome, List.mem_map]
  simp only [decide_eq_true_eq]

/-- Every name of the disarmed headers is found again just where that is so of the others. -/
theorem found_disarm {headers : List Header}
    (hclaimed : ∀ h ∈ otherHeaders headers, strLower h.1 ∈ claimedNames → strLower h.1 = h.1) :
    (∀ h ∈ disarmTraceHeaders headers,
      (headersGet (disarmTraceHeaders headers) h.1).isSome = true) ↔
      ∀ h ∈ otherHeaders headers, (headersGet (otherHeaders headers) h.1).isSome = true := by
  simp only [headersGet_isSome]
  have hkept : ∀ h ∈ otherHeaders headers, h ∈ disarmTraceHeaders headers := by
    intro h hh
    obtain ⟨hmem, hnot⟩ := List.mem_filter.mp hh
    refine List.mem_map.mpr ⟨h, hmem, ?_⟩
    rw [if_neg (by simpa using hnot)]
  constructor
  · intro hall h hh
    by_cases hc : strLower h.1 ∈ claimedNames
    · rw [hclaimed h hh hc]
      exact List.mem_map_of_mem hh
    · exact (mem_disarm_names headers hc).mp (hall h (hkept h hh))
  · intro hall h hh
    obtain ⟨h', hmem, rfl⟩ := List.mem_map.mp hh
    cases ht : isTrace h' with
    | true =>
      have hlower := (claimed_facts _ (claimed_mem ht)).1
      simp only [ht, if_true] at hh ⊢
      rw [hlower]
      exact List.mem_map_of_mem hh
    | false =>
      have hother : h' ∈ otherHeaders headers := List.mem_filter.mpr ⟨hmem, by simp [ht]⟩
      simp only [Bool.false_eq_true, if_false]
      by_cases hc : strLower h'.1 ∈ claimedNames
      · rw [hclaimed h' hother hc]
        exact List.mem_map_of_mem (hkept h' hother)
      · exact (mem_disarm_names headers hc).mpr (hall h' hother)

/-- A key that begins like a trace header is no claimed name, in any spelling. -/
theorem not_claimed_of_prefix {prefixes : List Bytes}
    (hprefixes : ∀ p ∈ prefixes, p ∈ traceContextHeaders)
    {key : Bytes} (hkey : (prefixes.any fun p => p.isPrefixOf (strLower key)) = true) :
    strLower key ∉ claimedNames ∧ key ∉ claimedNames := by
  obtain ⟨p, hp, hprefix⟩ := List.any_eq_true.mp hkey
  have hlower : strLower key ∉ claimedNames := by
    intro hc
    rw [(claimed_facts _ hc).2 p (hprefixes p hp)] at hprefix
    cases hprefix
  refine ⟨hlower, ?_⟩
  intro hc
  exact hlower ((claimed_facts key hc).1.symm ▸ hc)

/-- What the extractors are given after the middleware is what they are given of the other
headers. -/
theorem startingWith_disarm (headers : List Header) {prefixes : List Bytes}
    (hprefixes : ∀ p ∈ prefixes, p ∈ traceContextHeaders) :
    (startingWith prefixes fun key => if key ∈ (disarmTraceHeaders headers).map Prod.fst then
        headersGet (disarmTraceHeaders headers) key else none) =
      startingWith prefixes fun key => if key ∈ (otherHeaders headers).map Prod.fst then
        headersGet (otherHeaders headers) key else none := by
  funext key
  unfold startingWith
  cases hkey : prefixes.any fun p => p.isPrefixOf (strLower key) with
  | false => rfl
  | true =>
    obtain ⟨hlower, hc⟩ := not_claimed_of_prefix hprefixes hkey
    simp only [if_true, mem_disarm_names headers hc, headersGet, find_disarm headers hlower]

end Disarmed

section TwoRuns

variable {trust : TrustPredicate φ} {s t : Scope φ}

/-- For an untrusted connection `root_setup` behind the middleware extracts what it would
extract from the other headers alone. -/
theorem rootSetup_inbound (hconn : isConnection s = true) (hdistrust : trust s = false)
    (hclaimed : ClaimedLower s)
    (traceContext : Dict → γ) (baggage : Dict → γ → γ) (ambient : Option γ) :
    rootSetup traceContext baggage ambient (inboundTraceContext trust s) =
      rootSetup traceContext baggage ambient { s with headers := s.headers.map otherHeaders } := by
  have hheaders : (inboundTraceContext trust s).headers = s.headers.map disarmTraceHeaders := by
    unfold inboundTraceContext
    rw [hconn, hdistrust]
    cases hraw : s.headers with
    | none => simp [hraw]
    | some raw =>
      cases raw with
      | nil => simp [hraw, disarmTraceHeaders]
      | cons h hs => simp
  unfold rootSetup
  rw [hheaders]
  cases hraw : s.headers with
  | none => rfl
  | some raw =>
    have htraceNames :
        ∀ p ∈ [latin1 "traceparent", latin1 "tracestate"], p ∈ traceContextHeaders := by decide
    have hbaggageName : ∀ p ∈ [latin1 "baggage"], p ∈ traceContextHeaders := by decide
    have htrace := startingWith_disarm raw htraceNames
    have hbaggage := startingWith_disarm raw hbaggageName
    simp only [Option.map_some, Option.bind_eq_bind, Option.bind_some, headersDict,
      found_disarm (hclaimed raw hraw)]
    split
    · simp only [Option.bind_some, htrace, hbaggage]
    · rfl

theorem SameButTrace.isConnection (h : SameButTrace s t) : isConnection t = isConnection s := by
  rw [InboundTrace.isConnection, InboundTrace.isConnection, h.type]

theorem SameButTrace.claimedLower (h : SameButTrace s t) (hs : ClaimedLower s) :
    ClaimedLower t := by
  intro raw hraw
  have hheaders := h.headers
  rw [hraw, Option.map_some] at hheaders
  obtain ⟨raw', hraw', hother⟩ := Option.map_eq_some_iff.mp hheaders
  rw [← hother]
  exact hs raw' hraw'

/-- The scopes are equal where they have no headers at all. -/
theorem SameButTrace.eq_of_none (h : SameButTrace s t) (hnone : s.headers = none) : s = t := by
  obtain ⟨type, headers, rest⟩ := s
  obtain ⟨type', headers', rest'⟩ := t
  obtain ⟨htype, hrest, hheaders⟩ := h
  cases hnone
  cases htype
  cases hrest
  have hnone' : headers' = none := by simpa using hheaders.symm
  rw [hnone']

/-- Distrusting both, the propagator extracts the same from scopes that differ in trace headers
only. -/
theorem extract_same (h : SameButTrace s t) (hconn : isConnection s = true) (hs : trust s = false)
    (ht : trust t = false) (wrapped : Propagator φ γ) (empty : γ) (context : Option γ) :
    (Propagator.trustAware trust wrapped).extract empty s context =
      (Propagator.trustAware trust wrapped).extract empty t context := by
  cases hheaders : s.headers with
  | none => rw [h.eq_of_none hheaders]
  | some raw =>
    have hsome : t.headers.isSome = true := by
      have heq := congrArg Option.isSome h.headers
      rw [Option.isSome_map, Option.isSome_map, hheaders] at heq
      exact heq.symm
    have hconn' : isConnection t = true := h.isConnection.trans hconn
    simp [Propagator.extract, isAsgiConnectionScope, hconn, hconn', hs, ht, hheaders, hsome]

/-- The span of the transaction is then set up the same. -/
theorem rootSetup_same (h : SameButTrace s t) (hconn : isConnection s = true) (hs : trust s = false)
    (ht : trust t = false) (hclaimed : ClaimedLower s) (traceContext : Dict → γ)
    (baggage : Dict → γ → γ)
    (ambient : Option γ) :
    rootSetup traceContext baggage ambient (inboundTraceContext trust s) =
      rootSetup traceContext baggage ambient (inboundTraceContext trust t) := by
  rw [rootSetup_inbound hconn hs hclaimed,
    rootSetup_inbound (h.isConnection.trans hconn) ht (h.claimedLower hclaimed)]
  unfold rootSetup
  rw [h.headers]

end TwoRuns

/-- The application gets every other header unchanged at its place, and the rest of the scope. -/
structure PassesOthers (s t : Scope φ) : Prop where
  type : t.type = s.type
  rest : t.rest = s.rest
  count : t.headers.map List.length = s.headers.map List.length
  headers : ∀ raw raw', s.headers = some raw → t.headers = some raw' →
    ∀ (i : Nat) (h : Header), raw[i]? = some h → isTrace h = false → raw'[i]? = some h

theorem passesOthers_refl (s : Scope φ) : PassesOthers s s where
  type := rfl
  rest := rfl
  count := rfl
  headers raw raw' hraw hraw' i h hi _ := by
    rw [hraw] at hraw'
    cases hraw'
    exact hi

/-- The middleware leaves every other header and the rest of the scope alone. -/
theorem inbound_passesOthers (trust : TrustPredicate φ) (s : Scope φ) :
    PassesOthers s (inboundTraceContext trust s) := by
  unfold inboundTraceContext
  split
  · split
    · next h hs hraw =>
      refine ⟨rfl, rfl, ?_, ?_⟩
      · simp [hraw, disarmTraceHeaders]
      · intro raw raw' hraw₀ hraw' i x hi hother
        rw [hraw] at hraw₀
        cases hraw₀
        cases hraw'
        rw [disarmTraceHeaders, List.getElem?_map, hi, Option.map_some, hother]
        rfl
    · exact passesOthers_refl s
  · exact passesOthers_refl s

section Installation

/-- One call leaves one layer, with its own predicate. -/
theorem install_one {p : Propagator φ γ} (hp : p.layers ≤ 1) (trust : TrustPredicate φ) :
    ∃ wrapped, wrapped.layers = 0 ∧
      installInboundTraceBoundary trust p = .trustAware trust wrapped := by
  cases p with
  | plain extract => exact ⟨.plain extract, rfl, rfl⟩
  | trustAware earlier wrapped =>
    have hwrapped : wrapped.layers = 0 := by
      simp only [Propagator.layers] at hp
      omega
    exact ⟨wrapped, hwrapped, rfl⟩

/-- And so does any sequence of calls, with the predicate of the last. -/
theorem install_all (trusts : List (TrustPredicate φ)) (last : TrustPredicate φ)
    {p : Propagator φ γ}
    (hp : p.layers ≤ 1) :
    ∃ wrapped, wrapped.layers = 0 ∧
      (trusts ++ [last]).foldl (fun global trust => installInboundTraceBoundary trust global) p =
        .trustAware last wrapped := by
  induction trusts generalizing p with
  | nil => exact install_one hp last
  | cons trust trusts ih =>
    obtain ⟨wrapped, hwrapped, hinstalled⟩ := install_one hp trust
    rw [List.cons_append, List.foldl_cons, hinstalled]
    refine ih ?_
    rw [Propagator.layers, hwrapped]

end Installation

/-- Untrusted trace context has no influence: two connections that a predicate distrusts and that
differ in trace headers only give one context, in the propagator and in `root_setup` behind the
middleware; the middleware passes everything else on; and however often a boundary is installed,
there is one layer, with the last predicate. -/
theorem untrusted_trace_no_influence (trust : TrustPredicate φ) (hreads : ReadsNoTrace trust)
    (s t : Scope φ)
    (hsame : SameButTrace s t) (hconn : isConnection s = true) (hdistrust : trust s = false)
    (hclaimed : ClaimedLower s) :
    (∀ (wrapped : Propagator φ γ) (empty : γ) (context : Option γ),
      (Propagator.trustAware trust wrapped).extract empty s context =
        (Propagator.trustAware trust wrapped).extract empty t context) ∧
    (∀ (traceContext : Dict → γ) (baggage : Dict → γ → γ) (ambient : Option γ),
      rootSetup traceContext baggage ambient (inboundTraceContext trust s) =
        rootSetup traceContext baggage ambient (inboundTraceContext trust t)) ∧
    (∀ u : Scope φ, PassesOthers u (inboundTraceContext trust u)) ∧
    (∀ (trusts : List (TrustPredicate φ)) (last : TrustPredicate φ) (global : Propagator φ γ),
      global.layers ≤ 1 →
      ∃ wrapped, wrapped.layers = 0 ∧
        (trusts ++ [last]).foldl (fun global trust =>
          installInboundTraceBoundary trust global) global =
          .trustAware last wrapped) := by
  have ht : trust t = false := (hreads s t hsame).symm.trans hdistrust
  refine ⟨extract_same hsame hconn hdistrust ht,
    rootSetup_same hsame hconn hdistrust ht hclaimed, ?_, ?_⟩
  · exact inbound_passesOthers trust
  · intro trusts last global hglobal
    exact install_all trusts last hglobal

section Readers

/-- `_get_header` for any other name does not read trace headers. -/
theorem getHeader_same {s t : Scope φ} (h : SameButTrace s t) {name : String}
    (hname : bytesLower (latin1 name) ∉ traceContextHeaders) :
    getHeader s name = getHeader t name := by
  have hother : ∀ headers : List Header,
      headers.find? (fun h => decide (bytesLower h.1 = bytesLower (latin1 name))) =
        (otherHeaders headers).find? fun h =>
          decide (bytesLower h.1 = bytesLower (latin1 name)) := by
    intro headers
    unfold otherHeaders
    rw [List.find?_filter]
    congr 1
    funext x
    by_cases hx : bytesLower x.1 = bytesLower (latin1 name)
    · simp [isTrace, hx, hname]
    · simp [hx]
  have hheaders : otherHeaders (s.headers.getD []) = otherHeaders (t.headers.getD []) := by
    have heq := congrArg (fun o => o.getD []) h.headers
    cases hs : s.headers <;> cases ht : t.headers <;> simp_all [otherHeaders]
  rw [getHeader, getHeader, hother (s.headers.getD []), hother (t.headers.getD []), hheaders]

/-- `trust_requests_without_origin` does not read trace headers. -/
theorem trustRequestsWithoutOrigin_reads (allowed : List String) :
    ReadsNoTrace (trustRequestsWithoutOrigin allowed : TrustPredicate φ) := by
  intro s t h
  rw [trustRequestsWithoutOrigin, trustRequestsWithoutOrigin, getHeader_same h (by decide)]

theorem trustWhenHeaderMatches_reads {name : String}
    (hname : bytesLower (latin1 name) ∉ traceContextHeaders)
    (value : String) : ReadsNoTrace (trustWhenHeaderMatches name value : TrustPredicate φ) := by
  intro s t h
  rw [trustWhenHeaderMatches, trustWhenHeaderMatches, getHeader_same h hname]

theorem trustAnyOf_reads {predicates : List (TrustPredicate φ)}
    (hall : ∀ p ∈ predicates, ReadsNoTrace p) :
    ReadsNoTrace (trustAnyOf predicates) := by
  intro s t h
  unfold trustAnyOf
  rw [Bool.eq_iff_iff, List.any_eq_true, List.any_eq_true]
  constructor
  · rintro ⟨p, hp, htrue⟩
    exact ⟨p, hp, (hall p hp s t h).symm.trans htrue⟩
  · rintro ⟨p, hp, htrue⟩
    exact ⟨p, hp, (hall p hp s t h).trans htrue⟩

end Readers

/-- A browser request, without trace headers and with two of them. -/
def browser : Scope Unit where
  type := "http"
  headers := some [(latin1 "origin", latin1 "browser.example"), (latin1 "accept", latin1 "*/*")]
  rest := ()

def tracingBrowser : Scope Unit where
  type := "http"
  headers :=
    some [(latin1 "TraceParent", latin1 "00-1-2-01"), (latin1 "origin", latin1 "browser.example"),
    (latin1 "baggage", latin1 "flow=1"), (latin1 "accept", latin1 "*/*")]
  rest := ()

theorem browser_same : SameButTrace browser tracingBrowser := ⟨rfl, rfl, by decide +kernel⟩

/-- Extractors that look at what they are given. -/
def traceLength (d : Dict) : Nat := ((d (latin1 "traceparent")).getD []).length

def baggageLength (d : Dict) (context : Nat) : Nat :=
  context + ((d (latin1 "baggage")).getD []).length

/-- A browser's request without trust. -/
theorem browser_no_influence :
    rootSetup traceLength baggageLength none
      (inboundTraceContext (trustRequestsWithoutOrigin []) browser) =
      rootSetup traceLength baggageLength none
        (inboundTraceContext (trustRequestsWithoutOrigin []) tracingBrowser) := by
  have hclaimed : ClaimedLower browser := by
    intro raw hraw
    cases hraw
    decide +kernel
  exact (untrusted_trace_no_influence (trustRequestsWithoutOrigin [])
    (trustRequestsWithoutOrigin_reads []) browser
    tracingBrowser browser_same (by decide)
      (by decide +kernel) hclaimed).2.1 traceLength baggageLength none

/-! ## Letters of header names -/

theorem forall_byte {P : UInt8 → Prop} (h : ∀ n : Fin 256, P (UInt8.ofNat n))
    (b : UInt8) : P b := by
  have hb := h ⟨b.toNat, b.toNat_lt⟩
  simpa using hb

/-- Bytes that are ASCII in lower case are the same in lower case as text. -/
theorem strLower_of_ascii {name : Bytes} (h : ∀ b ∈ bytesLower name, b < 128) :
    strLower name = bytesLower name := by
  have hbyte : ∀ b : UInt8, (if 65 ≤ b ∧ b ≤ 90 then b + 32 else b) < 128 →
      charLower b = if 65 ≤ b ∧ b ≤ 90 then b + 32 else b := forall_byte (by decide +kernel)
  exact List.map_congr_left fun b hb => hbyte b (h _ (List.mem_map_of_mem hb))

theorem strLower_strLower (name : Bytes) : strLower (strLower name) = strLower name := by
  have hbyte : ∀ b : UInt8, charLower (charLower b) = charLower b := forall_byte (by decide +kernel)
  rw [strLower, strLower, List.map_map]
  exact List.map_congr_left fun b _ => hbyte b

end InboundTrace

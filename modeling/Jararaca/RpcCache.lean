import Mathlib.Data.List.Basic
import Mathlib.Data.Rat.Defs
import Mathlib.Algebra.Order.Ring.Rat

/-!
# The cache of the RPC client

The pipeline of `rpc_method` in rpc/http/decorators.py with `CacheMiddleware` among its request
middlewares. A call prepares its request and is answered from a cache or waits for the backend;
an answer goes through the response middlewares and hooks, and is stored. Calls may overlap at
every wait. What a state remembers besides the caches (`applied`, `stored`, `fromHit`, the log)
is history, and no function of the source reads it.
-/
namespace RpcCache

variable {ε β δ ρ : Type}

/-- `HttpRPCRequest`; `rest` is its body, timeout, form and files. -/
structure Request (β : Type) where
  url : String
  method : String
  headers : List (String × String)
  queryParams : String → Option String
  rest : β

/-- `HttpRPCResponse`; `rest` is its data, headers and elapsed time. -/
structure Response (δ : Type) where
  statusCode : Nat
  rest : δ

structure KeyData where
  method : String
  url : String
  queryParams : String → Option String
  headers : List (String × String)

def headerLe (a b : String × String) : Bool := decide (a.1 < b.1 ∨ a.1 = b.1 ∧ a.2 ≤ b.2)

def Request.keyData (r : Request β) : KeyData where
  method := r.method
  url := r.url
  queryParams := r.queryParams
  headers := r.headers.mergeSort headerLe

/-- A response with the response middlewares and hooks it has passed, by their places. -/
structure Tracked (δ : Type) where
  response : Response δ
  applied : List Nat

/-- An entry of `CacheMiddleware.cache`, with the request it was stored for and whether that one
was itself answered from a cache. -/
structure Entry (β δ : Type) where
  cached : Tracked δ
  timestamp : ℚ
  stored : Request β
  fromHit : Bool

abbrev Caches (β δ : Type) := Nat → String → Option (Entry β δ)

/-- A `CacheMiddleware` by its number, or another one. What another one does may depend on the
time and on all else (`ε`), and it may raise. It hands on the request object or a new one. -/
inductive RequestMiddleware (ε β : Type) where
  | cache (i : Nat)
  | other (onRequest : ε → Request β → Option (Request β × Bool))

/-- A method of the client: `success_statuses`, the error handlers of its route and of the client,
`RPCUnhandleError`, and what the return type makes of a response. -/
structure Method (β δ ρ : Type) where
  successStatuses : List Nat
  errorHandlers : List (Nat × (Request β → Response δ → ρ))
  unhandled : Request β → Response δ → ρ
  decode : Response δ → ρ

/-- The end of `rpc_method`. -/
def Method.result (m : Method β δ ρ) (request : Request β) (response : Response δ) : ρ :=
  if response.statusCode ∈ m.successStatuses then m.decode response
  else match m.errorHandlers.find? fun handler => decide (handler.1 = response.statusCode) with
    | some handler => handler.2 request response
    | none => m.unhandled request response

/-- `HttpRpcClientBuilder` and the methods it built; `cacheKey` is `str(hash(json.dumps(...)))`,
which has a seed for every process. -/
structure Client (ε β δ ρ : Type) where
  cacheKey : KeyData → String
  ttlSeconds : Nat → ℚ
  requestHooks : List (ε → Request β → Option (Request β))
  middlewares : List (RequestMiddleware ε β)
  responseMiddlewares : List (ε → Request β → Response δ → Option (Response δ))
  responseHooks : List (ε → Request β → Response δ → Option (Response δ))
  methods : List (Method β δ ρ)

/-- A call of a method, with the request compiled from its arguments. -/
structure Call (ε β : Type) where
  method : Nat
  request : Request β
  env : ε
  time : ℚ

/-- `_cached_response`, with the cache that set it and the request it was asked for. -/
structure Found (β δ : Type) where
  cache : Nat
  asked : Request β
  entry : Entry β δ

structure Prepared (β δ : Type) where
  request : Request β
  found : Option (Found β δ)

namespace Client

variable (client : Client ε β δ ρ)

def cacheOnRequest (caches : Caches β δ) (now : ℚ) (i : Nat) (p : Prepared β δ) : Prepared β δ :=
  if p.request.method = "GET" then
    match caches i (client.cacheKey p.request.keyData) with
    | some entry =>
      if now - entry.timestamp < client.ttlSeconds i then
        { p with found := some ⟨i, p.request, entry⟩ }
      else p
    | none => p
  else p

def passHooks (env : ε) : List (ε → Request β → Option (Request β)) → Request β → Option (Request β)
  | [], request => some request
  | hook :: hooks, request => (hook env request).bind (passHooks env hooks)

/-- The request middlewares in their order. A new request object has no cached response. -/
def passMiddlewares (caches : Caches β δ) (now : ℚ) (env : ε) :
    List (RequestMiddleware ε β) → Prepared β δ → Option (Prepared β δ)
  | [], p => some p
  | .cache i :: rest, p =>
    passMiddlewares caches now env rest (client.cacheOnRequest caches now i p)
  | .other onRequest :: rest, p =>
    (onRequest env p.request).bind fun out =>
      passMiddlewares caches now env rest ⟨out.1, if out.2 then p.found else none⟩

def prepare (caches : Caches β δ) (c : Call ε β) : Option (Prepared β δ) :=
  (passHooks c.env client.requestHooks c.request).bind fun request =>
    client.passMiddlewares caches c.time c.env client.middlewares ⟨request, none⟩

/-- The response middlewares, then the response hooks. -/
def responseChain : List (ε → Request β → Response δ → Option (Response δ)) :=
  client.responseMiddlewares ++ client.responseHooks

def hasCache (i : Nat) : Bool := client.middlewares.any fun
  | .cache j => decide (j = i)
  | .other _ => false

/-- The store after the hooks, in every cache middleware. -/
def store (request : Request β) (entry : Entry β δ) (caches : Caches β δ) :
    Caches β δ := fun i key =>
  if client.hasCache i ∧ key = client.cacheKey request.keyData then some entry else caches i key

end Client

/-- A response on its way through the chain from place `n` on. -/
def respond (env : ε) (request : Request β) :
    Nat → List (ε → Request β → Response δ → Option (Response δ)) → Tracked δ → Option (Tracked δ)
  | _, [], t => some t
  | n, onResponse :: rest, t => (onResponse env request t.response).bind fun response =>
    respond env request (n + 1) rest ⟨response, t.applied ++ [n]⟩

/-- A call that has an answer: `cache` is the one that gave it, if the backend did not. -/
structure Record (β δ ρ : Type) where
  method : Nat
  request : Request β
  final : Tracked δ
  cache : Option Nat
  start : ℚ
  answered : ℚ
  result : ρ

structure Pending (ε β : Type) where
  call : Call ε β
  request : Request β

/-- The caches, the calls that wait for the backend, and the answered ones, the last first. -/
structure State (ε β δ ρ : Type) where
  caches : Caches β δ
  pending : List (Pending ε β)
  log : List (Record β δ ρ)

/-- A call, or the end of a wait: the response of `_execute_with_retry`, unless it raises. -/
inductive Event (ε β δ : Type) where
  | call (c : Call ε β)
  | answer (i : Nat) (fetched : Option (Response δ)) (env : ε) (now : ℚ)

section Steps

variable (client : Client ε β δ ρ)

/-- `rpc_method` from the response on. -/
def complete (m : Method β δ ρ) (c : Call ε β) (env : ε) (request : Request β) (t : Tracked δ)
    (cache : Option Nat)
    (now : ℚ) (s : State ε β δ ρ) : State ε β δ ρ :=
  match respond env request 0 client.responseChain t with
  | none => s
  | some final =>
    { s with
      caches := if request.method = "GET" then
          client.store request ⟨final, now, request, cache.isSome⟩ s.caches
        else s.caches
      log := ⟨c.method, request, final, cache, c.time, now,
        m.result request final.response⟩ :: s.log }

def step (s : State ε β δ ρ) : Event ε β δ → State ε β δ ρ
  | .call c =>
    match client.methods[c.method]?, client.prepare s.caches c with
    | some m, some p =>
      match p.found with
      | some found =>
        complete client m c c.env p.request found.entry.cached (some found.cache) c.time s
      | none => { s with pending := s.pending ++ [⟨c, p.request⟩] }
    | _, _ => s
  | .answer i fetched env now =>
    match s.pending[i]? with
    | none => s
    | some waiting =>
      let s := { s with pending := s.pending.eraseIdx i }
      match client.methods[waiting.call.method]?, fetched with
      | some m, some response =>
        complete client m waiting.call env waiting.request ⟨response, []⟩ none now s
      | _, _ => s

/-- What a step can do: change who waits, answer from a cache, or pass on an answer of the
backend. -/
theorem step_cases (s : State ε β δ ρ) (e : Event ε β δ) :
    (∃ pending, step client s e = { s with pending }) ∨
    (∃ c m p found, e = .call c ∧ client.methods[c.method]? = some m ∧
      client.prepare s.caches c = some p ∧
      p.found = some found ∧ step client s e =
        complete client m c c.env p.request found.entry.cached (some found.cache) c.time s) ∨
    ∃ i response env now waiting m, e = .answer i (some response) env now ∧
      s.pending[i]? = some waiting ∧
      client.methods[waiting.call.method]? = some m ∧ step client s e =
        complete client m waiting.call env waiting.request ⟨response, []⟩ none now
          { s with pending := s.pending.eraseIdx i } := by
  cases e with
  | call c =>
    cases hm : client.methods[c.method]? with
    | none => exact .inl ⟨s.pending, by simp only [step, hm]⟩
    | some m =>
      cases hp : client.prepare s.caches c with
      | none => exact .inl ⟨s.pending, by simp only [step, hm, hp]⟩
      | some p =>
        cases hfound : p.found with
        | none => exact .inl ⟨s.pending ++ [⟨c, p.request⟩], by simp only [step, hm, hp, hfound]⟩
        | some found =>
          exact .inr (.inl ⟨c, m, p, found, rfl, hm, hp, hfound,
            by simp only [step, hm, hp, hfound]⟩)
  | answer i fetched env now =>
    cases hwaiting : s.pending[i]? with
    | none => exact .inl ⟨s.pending, by simp only [step, hwaiting]⟩
    | some waiting =>
      cases hm : client.methods[waiting.call.method]? with
      | none => exact .inl ⟨s.pending.eraseIdx i, by simp only [step, hwaiting, hm]⟩
      | some m =>
        cases fetched with
        | none => exact .inl ⟨s.pending.eraseIdx i, by simp only [step, hwaiting, hm]⟩
        | some response =>
          exact .inr (.inr ⟨i, response, env, now, waiting, m, rfl, hwaiting, hm,
            by simp only [step, hwaiting, hm]⟩)

def run (s : State ε β δ ρ) (events : List (Event ε β δ)) : State ε β δ ρ :=
  events.foldl (step client) s

end Steps

def initial : State ε β δ ρ := ⟨fun _ _ => none, [], []⟩

/-- Two requests that are equal for the backend in all that the key is made of; the order of
headers does not count. -/
structure SameAtBackend (a b : Request β) : Prop where
  method : a.method = b.method
  url : a.url = b.url
  queryParams : a.queryParams = b.queryParams
  headers : a.headers.Perm b.headers

section Properties

variable (client : Client ε β δ ρ)

/-- What is claimed of an answered call, given those answered before it. -/
structure Transparent (earlier : List (Record β δ ρ)) (r : Record β δ ρ) : Prop where
  once : r.final.applied = List.range client.responseChain.length
  fresh : ∀ i, r.cache = some i →
    ∃ r' ∈ earlier, r'.cache = none ∧ r.start - r'.answered < client.ttlSeconds i ∧
    SameAtBackend r'.request r.request ∧ r.final.response = r'.final.response ∧
    (r.method = r'.method → r.result = r'.result)
  success : ∀ i m, r.cache = some i → client.methods[r.method]? = some m →
    r.final.response.statusCode ∈ m.successStatuses

def AllTransparent : List (Record β δ ρ) → Prop
  | [] => True
  | r :: earlier => Transparent client earlier r ∧ AllTransparent earlier

/-- A call that finds an entry has a client without response middlewares and hooks, and the entry
was stored with the response of the backend, for a request with the data of its key; the
middlewares behind the cache leave these data alone. What a GET fetches is a success for every
method, if no response middleware sees it. -/
def Careful (s : State ε β δ ρ) : Event ε β δ → Prop
  | .call c => ∀ p found, client.prepare s.caches c = some p → p.found = some found →
    client.responseChain = [] ∧ found.entry.fromHit = false ∧
      found.asked.keyData = found.entry.stored.keyData ∧
      p.request.keyData = found.asked.keyData
  | .answer i fetched _ _ => ∀ waiting response,
    s.pending[i]? = some waiting → fetched = some response →
    waiting.request.method = "GET" → client.responseChain = [] →
      ∀ m ∈ client.methods, response.statusCode ∈ m.successStatuses

def CarefulRun : State ε β δ ρ → List (Event ε β δ) → Prop
  | _, [] => True
  | s, e :: events => Careful client s e ∧ CarefulRun (step client s e) events

end Properties

section Preparation

variable {client : Client ε β δ ρ} {caches : Caches β δ} {now : ℚ}

/-- What a prepared request carries is a fresh entry under its key. -/
def FoundIn (client : Client ε β δ ρ) (caches : Caches β δ) (now : ℚ) (p : Prepared β δ) : Prop :=
  ∀ found, p.found = some found →
    caches found.cache (client.cacheKey found.asked.keyData) = some found.entry ∧
      now - found.entry.timestamp < client.ttlSeconds found.cache

theorem cacheOnRequest_found {p : Prepared β δ} (h : FoundIn client caches now p) (i : Nat) :
    FoundIn client caches now (client.cacheOnRequest caches now i p) := by
  unfold Client.cacheOnRequest
  split
  · split
    · next entry hentry =>
      split
      · next hfresh =>
        intro found hfound
        cases hfound
        exact ⟨hentry, hfresh⟩
      · exact h
    · exact h
  · exact h

/-- Only a cache on the way finds an entry, and only a fresh one. -/
theorem passMiddlewares_found (env : ε) (middlewares : List (RequestMiddleware ε β))
    {p p' : Prepared β δ}
    (h : FoundIn client caches now p)
    (hpass : client.passMiddlewares caches now env middlewares p = some p') :
    FoundIn client caches now p' := by
  induction middlewares generalizing p with
  | nil =>
    cases hpass
    exact h
  | cons middleware rest ih =>
    cases middleware with
    | cache i => exact ih (cacheOnRequest_found h i) hpass
    | other onRequest =>
      obtain ⟨⟨request, keeps⟩, -, hrest⟩ := Option.bind_eq_some_iff.mp hpass
      refine ih ?_ hrest
      intro found hfound
      cases keeps with
      | true => exact h found hfound
      | false => cases hfound

/-- What a call finds is a fresh entry of one of its caches. -/
theorem prepare_found {c : Call ε β} {p : Prepared β δ} (h : client.prepare caches c = some p) :
    FoundIn client caches c.time p := by
  obtain ⟨request, -, hpass⟩ := Option.bind_eq_some_iff.mp h
  refine passMiddlewares_found c.env client.middlewares ?_ hpass
  intro found hfound
  cases hfound

end Preparation

section Responses

/-- A response that comes through has passed every place of the chain once, in order. -/
theorem respond_applied (env : ε) (request : Request β)
    (chain : List (ε → Request β → Response δ → Option (Response δ))) (n : Nat)
    {t final : Tracked δ}
    (h : respond env request n chain t = some final) :
    final.applied = t.applied ++ List.range' n chain.length := by
  induction chain generalizing n t with
  | nil =>
    cases h
    simp
  | cons onResponse rest ih =>
    obtain ⟨response, -, hrest⟩ := Option.bind_eq_some_iff.mp h
    rw [ih (n + 1) hrest, List.length_cons, List.range'_succ, List.append_assoc]
    rfl

theorem respond_nil {env : ε} {request : Request β} {n : Nat}
    {chain : List (ε → Request β → Response δ → Option (Response δ))} (hchain : chain = [])
    {t final : Tracked δ}
    (h : respond env request n chain t = some final) : final = t := by
  subst hchain
  exact (Option.some.inj h).symm

end Responses

section Invariance

variable {client : Client ε β δ ρ} {s : State ε β δ ρ}

theorem once_of_mem {log : List (Record β δ ρ)} (h : AllTransparent client log) {r : Record β δ ρ}
    (hr : r ∈ log) :
    r.final.applied = List.range client.responseChain.length := by
  induction log with
  | nil => cases hr
  | cons r' log ih =>
    rcases List.mem_cons.mp hr with rfl | hr
    · exact h.1.once
    · exact ih h.2 hr

/-- A request has the data of the key where the two sort their headers to the same list. -/
theorem sameAtBackend_of_keyData {a b : Request β} (h : a.keyData = b.keyData) :
    SameAtBackend a b where
  method := congrArg KeyData.method h
  url := congrArg KeyData.url h
  queryParams := congrArg KeyData.queryParams h
  headers := by
    have hsorted : a.headers.mergeSort headerLe = b.headers.mergeSort headerLe :=
      congrArg KeyData.headers h
    exact (List.mergeSort_perm a.headers headerLe).symm.trans
      (hsorted ▸ List.mergeSort_perm b.headers headerLe)

/-- The response of an entry that no hit has stored is that of an answered call, and a success if
it is still the backend's. -/
def Accounted (client : Client ε β δ ρ) (log : List (Record β δ ρ)) (e : Entry β δ) : Prop :=
  ∃ r ∈ log, r.cache = none ∧ r.answered = e.timestamp ∧ r.request = e.stored ∧ r.final = e.cached ∧
    (client.responseChain = [] → ∀ m ∈ client.methods,
      r.final.response.statusCode ∈ m.successStatuses)

theorem Accounted.later {log : List (Record β δ ρ)} {e : Entry β δ} (h : Accounted client log e)
    (r : Record β δ ρ) :
    Accounted client (r :: log) e := by
  obtain ⟨r', hr', hrest⟩ := h
  exact ⟨r', List.mem_cons_of_mem r hr', hrest⟩

structure Invariant (client : Client ε β δ ρ) (s : State ε β δ ρ) : Prop where
  transparent : AllTransparent client s.log
  recorded : ∀ r ∈ s.log, ∃ m, client.methods[r.method]? = some m ∧
    r.result = m.result r.request r.final.response
  stored : ∀ i key e, s.caches i key = some e → e.fromHit = false → Accounted client s.log e

/-- There is nothing in the caches before the first call. -/
theorem invariant_initial (client : Client ε β δ ρ) : Invariant client initial := by
  refine ⟨trivial, ?_, ?_⟩
  · intro r hr
    cases hr
  · intro i key e he
    cases he

/-- An answered call keeps the invariant if it is transparent itself, and a success where a GET
brings it from the backend. -/
theorem invariant_complete (h : Invariant client s) {m : Method β δ ρ} {c : Call ε β} {env : ε}
    {request : Request β}
    {t : Tracked δ} {cache : Option Nat} {now : ℚ} (hm : client.methods[c.method]? = some m)
    (hnew : ∀ final, respond env request 0 client.responseChain t = some final →
      Transparent client s.log
      ⟨c.method, request, final, cache, c.time, now, m.result request final.response⟩)
    (hsuccess : ∀ final, respond env request 0 client.responseChain t = some final → cache = none →
      request.method = "GET" → client.responseChain = [] →
        ∀ m ∈ client.methods, final.response.statusCode ∈ m.successStatuses) :
    Invariant client (complete client m c env request t cache now s) := by
  unfold complete
  cases hfinal : respond env request 0 client.responseChain t with
  | none => exact h
  | some final =>
    refine ⟨⟨hnew final hfinal, h.transparent⟩, ?_, ?_⟩
    · intro r hr
      rcases List.mem_cons.mp hr with rfl | hr
      · exact ⟨m, hm, rfl⟩
      · exact h.recorded r hr
    · intro i key e he hfetched
      by_cases hget : request.method = "GET"
      · simp only [hget, if_true, Client.store] at he
        split at he
        · cases he
          have hnone : cache = none := by simpa using hfetched
          exact ⟨_, List.mem_cons_self, hnone, rfl, rfl, rfl, hsuccess final hfinal hnone hget⟩
        · exact (h.stored i key e he hfetched).later _
      · simp only [hget, if_false] at he
        exact (h.stored i key e he hfetched).later _

/-- A hit that is careful is transparent: the entry's call is the one asked for. -/
theorem transparent_hit (h : Invariant client s) {c : Call ε β} {m : Method β δ ρ}
    (hm : client.methods[c.method]? = some m) {p : Prepared β δ}
    (hp : client.prepare s.caches c = some p)
    {found : Found β δ} (hfound : p.found = some found) (hcareful : Careful client s (.call c))
    {final : Tracked δ} (hfinal :
      respond c.env p.request 0 client.responseChain found.entry.cached = some final) :
    Transparent client s.log
      ⟨c.method, p.request, final, some found.cache, c.time, c.time,
        m.result p.request final.response⟩ := by
  obtain ⟨hchain, hfetched, hcollision, hlater⟩ := hcareful p found hp hfound
  obtain ⟨hentry, hfresh⟩ := prepare_found hp found hfound
  obtain ⟨r, hr, hnone, hanswered, hrequest, hcached, hsuccess⟩ := h.stored _ _ _ hentry hfetched
  obtain rfl : final = found.entry.cached := respond_nil hchain hfinal
  have hstatus :
      ∀ m ∈ client.methods, found.entry.cached.response.statusCode ∈ m.successStatuses := by
    rw [← hcached]
    exact hsuccess hchain
  have hmem : m ∈ client.methods := List.mem_of_getElem? hm
  refine ⟨?_, ?_, ?_⟩
  · have honce := once_of_mem h.transparent hr
    rwa [hcached] at honce
  · intro i hi
    cases hi
    refine ⟨r, hr, hnone, ?_, ?_, ?_, ?_⟩
    · rw [hanswered]
      exact hfresh
    · apply sameAtBackend_of_keyData
      rw [hrequest, ← hcollision, hlater]
    · rw [hcached]
    · intro hmethod
      obtain ⟨m', hm', hresult⟩ := h.recorded r hr
      obtain rfl : m = m' := by
        rw [← show c.method = r.method from hmethod, hm] at hm'
        exact Option.some.inj hm'
      rw [hresult, hcached, Method.result, Method.result, if_pos (hstatus m hmem),
        if_pos (hstatus m hmem)]
  · intro i m' _ hm'
    exact hstatus m' (List.mem_of_getElem? hm')

/-- An answer of the backend is transparent whatever it is. -/
theorem transparent_answer (log : List (Record β δ ρ)) {request : Request β}
    {response : Response δ} {env : ε}
    {final : Tracked δ} (hfinal : respond env request 0 client.responseChain ⟨response, []⟩ =
      some final) (method : Nat)
    (start now : ℚ) (result : ρ) :
    Transparent client log ⟨method, request, final, none, start, now, result⟩ := by
  refine ⟨?_, ?_, ?_⟩
  · rw [respond_applied env request client.responseChain 0 hfinal, List.nil_append,
      List.range_eq_range']
  · intro i hi
    cases hi
  · intro i m hi
    cases hi

theorem Invariant.waiting (h : Invariant client s) (pending : List (Pending ε β)) :
    Invariant client { s with pending } := ⟨h.transparent, h.recorded, h.stored⟩

/-- Every careful step keeps the entries accounted for. -/
theorem invariant_step (h : Invariant client s) {e : Event ε β δ} (hcareful : Careful client s e) :
    Invariant client (step client s e) := by
  rcases step_cases client s e with ⟨pending, hstep⟩ |
    ⟨c, m, p, found, rfl, hm, hp, hfound, hstep⟩ |
    ⟨i, response, env, now, waiting, m, rfl, hwaiting, hm, hstep⟩
  · rw [hstep]
    exact h.waiting pending
  · rw [hstep]
    refine invariant_complete h hm ?_ ?_
    · intro final hfinal
      exact transparent_hit h hm hp hfound hcareful hfinal
    · intro final _ hnone
      cases hnone
  · rw [hstep]
    refine invariant_complete (h.waiting _) hm ?_ ?_
    · intro final hfinal
      exact transparent_answer _ hfinal _ _ _ _
    · intro final hfinal _ hget hchain
      rw [respond_nil hchain hfinal]
      exact hcareful waiting response hwaiting rfl hget hchain

/-- So does every careful run. -/
theorem invariant_run (events : List (Event ε β δ)) (h : Invariant client s)
    (hcareful : CarefulRun client s events) :
    Invariant client (run client s events) := by
  induction events generalizing s with
  | nil => exact h
  | cons e events ih => exact ih (invariant_step h hcareful.1) hcareful.2

/-- In a run of careful steps every answered call is transparent: it went through the response
middlewares and hooks once, and if a cache answered it, that was a success that the backend gave
less than `ttl_seconds` before for the same request. -/
theorem cache_transparent (client : Client ε β δ ρ) (events : List (Event ε β δ))
    (hcareful : CarefulRun client initial events) :
    AllTransparent client (run client initial events).log :=
  (invariant_run events (invariant_initial client) hcareful).transparent

end Invariance

/-- A client with one cache of five minutes and nothing else. -/
def cachedClient : Client Unit Unit Nat Nat where
  cacheKey k := k.url
  ttlSeconds _ := 300
  requestHooks := []
  middlewares := [.cache 0]
  responseMiddlewares := []
  responseHooks := []
  methods :=
    [{ successStatuses := [200], errorHandlers := [], unhandled := fun _ _ => 0
       decode := Response.rest }]

def priceRequest : Request Unit where
  url := "/price"
  method := "GET"
  headers := []
  queryParams _ := none
  rest := ()

def getPrice (time : ℚ) : Event Unit Unit Nat := .call ⟨0, priceRequest, (), time⟩

/-- The first call is answered by the backend, the others by the cache. -/
def prices (times : List ℚ) : List (Event Unit Unit Nat) :=
  getPrice 0 :: .answer 0 (some ⟨200, 42⟩) () 0 :: times.map getPrice

theorem prepare_price {caches : Caches Unit Nat} {entry : Entry Unit Nat}
    (hentry : caches 0 "/price" = some entry) {now : ℚ} (hfresh : now - entry.timestamp < 300) :
    cachedClient.prepare caches ⟨0, priceRequest, (), now⟩ =
      some ⟨priceRequest, some ⟨0, priceRequest, entry⟩⟩ := by
  have hkey : caches 0 (cachedClient.cacheKey priceRequest.keyData) = some entry := hentry
  have hprepare : cachedClient.prepare caches ⟨0, priceRequest, (), now⟩ =
      some (cachedClient.cacheOnRequest caches now 0 ⟨priceRequest, none⟩) := rfl
  have hget : priceRequest.method = "GET" := rfl
  have httl : now - entry.timestamp < cachedClient.ttlSeconds 0 := hfresh
  rw [hprepare, Client.cacheOnRequest]
  simp only [hget, hkey, httl, if_true]

/-- One hit within the time to live. -/
theorem one_hit_transparent :
    AllTransparent cachedClient (run cachedClient initial (prices [200])).log := by
  refine cache_transparent cachedClient (prices [200]) ⟨?_, ?_, ?_, trivial⟩
  · intro p found hp hfound
    cases hp
    cases hfound
  · intro waiting response _ hresponse _ _
    cases hresponse
    decide
  · intro p found hp hfound
    have hfresh : (200 : ℚ) - 0 < 300 := by decide +kernel
    have hentry : (run cachedClient initial (prices [])).caches 0 "/price" =
        some ⟨⟨⟨200, 42⟩, []⟩, 0, priceRequest, false⟩ := rfl
    have hprepared := (prepare_price hentry hfresh).symm.trans hp
    cases hprepared
    cases hfound
    exact ⟨rfl, rfl, rfl, rfl⟩

/-- A hit at 200 seconds stores the response again; at 400 seconds it is served once more. -/
theorem hits_keep_response :
    (run cachedClient initial (prices [200, 400])).log.map
      (fun r => (r.start, r.answered, r.cache)) =
      [(400, 400, some 0), (200, 200, some 0), (0, 0, none)] ∧
    ¬ AllTransparent cachedClient (run cachedClient initial (prices [200, 400])).log := by
  have hlog : (run cachedClient initial (prices [200, 400])).log.map
      (fun r => (r.start, r.answered, r.cache)) =
      [(400, 400, some 0), (200, 200, some 0), (0, 0, none)] := by decide +kernel
  refine ⟨hlog, ?_⟩
  generalize (run cachedClient initial (prices [200, 400])).log = log at hlog
  obtain ⟨last, earlier, rfl, hlast, hearlier⟩ := List.map_eq_cons_iff.mp hlog
  simp only [Prod.mk.injEq] at hlast
  intro h
  obtain ⟨r, hr, hnone, hfresh, -⟩ := h.1.fresh 0 hlast.2.2
  have hmem : (r.start, r.answered, r.cache) ∈ [((200 : ℚ), (200 : ℚ), some 0), (0, 0, none)] := by
    rw [← hearlier]
    exact List.mem_map_of_mem hr
  simp only [List.mem_cons, Prod.mk.injEq, hnone, List.not_mem_nil, or_false,
    reduceCtorEq, and_false,
    false_or, and_true] at hmem
  rw [hlast.1, hmem.2] at hfresh
  exact absurd hfresh (by decide +kernel)

end RpcCache

import Mathlib.Logic.Relation
import Jararaca.DelayedStore
import Jararaca.RetryLineage

/-!
# Whole runs of one message

The worker, the delayed-message store and the beat worker as one system: a queue of
deliveries, the store, and what became of every execution. A step is one execution of a
queued delivery, or one cycle of a beat worker at any time. Runs are any sequence of steps,
and the conditions of a result say which executions may occur in them.
-/
namespace RetryRuns

open Programs Messages SortedSets Interceptors Worker WorkerRules WorkerOutcomes WorkerSettlement
open RetryAttempts RetryLineage
open DelayedStore (Store Codec Storable metadataKey taskId selected selected_single dequeueScript)
open Doubles (nearestInt)

/-- One execution of the handler and what came out of it. -/
structure Record where
  delivery : Delivery
  execution : Execution
  settled : List Settlement
  copied : List DelayedMessageData

structure System where
  /-- the queue of the handler -/
  queue : List Delivery
  /-- what the beat worker published to any other place -/
  elsewhere : List DelayedMessageData := []
  store : Store := Store.empty
  unacked : List Delivery := []
  deadLettered : List Delivery := []
  history : List Record := []

/-- The message was published once and nothing else happened. -/
def start (msg : Delivery) : System := { queue := [msg] }

def System.waiting (s : System) : List (Int ×ₗ String) := s.store.delayedMessages.entries

def System.copied (s : System) : List DelayedMessageData := s.history.flatMap Record.copied

def record (spec : HandlerSpec) (interceptors : List Interceptor) (d : Delivery) (x : Execution) :
    Record :=
  ⟨d, x, settlements (final spec interceptors d x).log, copies (final spec interceptors d x).log⟩

/-- The accepted enqueues of one execution, each with the uuid it drew. -/
def enqueueAll (codec : Codec) : List (DelayedMessageData × String) → Store → Store
  | [], s => s
  | (m, uuid) :: rest, s =>
    enqueueAll codec rest (DelayedStore.enqueueDelayedMessage codec m uuid s).2

/-- What the broker does with the delivery of an execution. -/
def afterSettlement (d : Delivery) (s : System) : List Settlement → System
  | [] => { s with unacked := s.unacked ++ [d] }
  | .ack :: _ => s
  | .reject false :: _ => { s with deadLettered := s.deadLettered ++ [d] }
  | .reject true :: _ | .nack :: _ => { s with queue := s.queue ++ [d] }

@[simp] theorem afterSettlement_history (d : Delivery) (s : System) (ops : List Settlement) :
    (afterSettlement d s ops).history = s.history := by
  unfold afterSettlement
  split <;> rfl

def executed (spec : HandlerSpec) (interceptors : List Interceptor) (codec : Codec)
    (uuids : List String) (rest : List Delivery) (d : Delivery) (x : Execution)
    (s : System) : System :=
  let r := record spec interceptors d x
  afterSettlement d { s with
    queue := rest
    store := enqueueAll codec (r.copied.zip uuids) s.store
    history := s.history ++ [r] } r.settled

/-- `dispatch_delayed_message`: the default exchange delivers to the target queue; without
one the topic exchange decides. -/
def dispatch (spec : HandlerSpec) (s : System) (m : DelayedMessageData) : System :=
  if truthy m.targetQueue = some spec.queueName then { s with queue := s.queue ++ [dispatched m] }
  else { s with elsewhere := s.elsewhere ++ [m] }

/-- The delayed messages of one cycle of `run_scheduled_actions`. -/
def beat (spec : HandlerSpec) (codec : Codec) (batchSize : Nat) (now : Int) (s : System) : System :=
  let claimed := DelayedStore.dequeueNextDelayedMessages codec now batchSize s.store
  claimed.1.foldl (dispatch spec) { s with store := claimed.2 }

/-- A step of the system, where `P` says which executions may occur. The backend accepted
a copy only if it has a JSON form. -/
inductive Step (spec : HandlerSpec) (interceptors : List Interceptor) (codec : Codec)
    (batchSize : Nat) (P : Delivery → Execution → Prop) : System → System → Prop where
  | execute {s : System} {before after : List Delivery} {d : Delivery} (x : Execution)
      (uuids : List String) (queued : s.queue = before ++ d :: after) (allowed : P d x)
      (drawn : uuids.length = (record spec interceptors d x).copied.length)
      (written : ∀ c ∈ (record spec interceptors d x).copied, ∃ b, codec.dump c = .ok b) :
      Step spec interceptors codec batchSize P s
        (executed spec interceptors codec uuids (before ++ after) d x s)
  | beat {s : System} (now : Int) :
      Step spec interceptors codec batchSize P s (beat spec codec batchSize now s)

def Reachable (spec : HandlerSpec) (interceptors : List Interceptor) (codec : Codec)
    (batchSize : Nat) (P : Delivery → Execution → Prop) (msg : Delivery) (s : System) : Prop :=
  Relation.ReflTransGen (Step spec interceptors codec batchSize P) (start msg) s

/-- What pydantic promises of its JSON: what reads back is what was written, and
every message with finite header values reads back. -/
structure Lossless (codec : Codec) : Prop where
  faithful : ∀ m b m', codec.dump m = .ok b → codec.load b = some m' → m' = m
  reads : ∀ m b h, codec.dump m = .ok b → m.headers = some h → Writable h → codec.load b = some m

section Store

variable {codec : Codec}

/-- A retry copy in an empty store is its only entry. -/
theorem enqueue_empty {m : DelayedMessageData} (hkey : m.idempotencyKey = none) {b : Bytes}
    (hdump : codec.dump m = .ok b) (hfits : Storable m.dispatchTime) (uuid : String) {s : Store}
    (hs : s.delayedMessages.entries = []) :
    (DelayedStore.enqueueDelayedMessage codec m uuid s).2.delayedMessages.entries =
        [toLex (nearestInt m.dispatchTime, uuid)] ∧
      (DelayedStore.enqueueDelayedMessage codec m uuid s).2.metadata
        (metadataKey uuid) = some b := by
  have hid : taskId m uuid = uuid := by simp [taskId, orElse, hkey]
  have hnew : uuid ∉ s.delayedMessages.members := by simp [ZSet.members, hs]
  rw [DelayedStore.enqueue_run codec m uuid s hdump hfits, hid]
  constructor
  · rw [ZSet.upsert_new hnew]
    simp [ZSet.add, ZSet.remove, ZSet.keep, hs]
  · simp [DelayedStore.setMetadata, DelayedStore.isIdempotent, hkey]

variable (codec) in
/-- A cycle that selects nothing changes nothing. -/
theorem beat_idle (spec : HandlerSpec) {batchSize : Nat} {now : Int} {s : System}
    (hsel : selected s.store now batchSize = []) : beat spec codec batchSize now s = s := by
  simp [beat, DelayedStore.dequeueNextDelayedMessages, dequeueScript, hsel, DelayedStore.claimLoop]

theorem selected_empty {s : Store} (hs : s.delayedMessages.entries = []) (now : Int)
    (batchSize : Nat) : selected s now batchSize = [] := by
  simp [selected, ZSet.rangeByScore, ZSet.upTo, hs]

variable (codec) in
/-- A cycle over a store with one due copy takes it out, and delivers it if it reads back. -/
theorem beat_single (spec : HandlerSpec) {batchSize : Nat} {now : Int} {s : System} {id : String}
    {c : DelayedMessageData} {b : Bytes} (hs : s.waiting = [toLex (nearestInt c.dispatchTime, id)])
    (hb : s.store.metadata (metadataKey id) = some b)
    (hdue : nearestInt c.dispatchTime ≤ nearestInt now ∧ 1 ≤ batchSize) :
    (beat spec codec batchSize now s).waiting = [] ∧
      beat spec codec batchSize now s = (codec.load b).toList.foldl (dispatch spec)
        { s with store := (dequeueScript now batchSize s.store).2 } := by
  have hsel : selected s.store now batchSize = [toLex (nearestInt c.dispatchTime, id)] := by
    rw [selected_single hs]
    exact if_pos hdue
  have hpayloads : (dequeueScript now batchSize s.store).1 = [b] := by
    simp [dequeueScript, hsel, DelayedStore.claimLoop, hb]
  have hentries : (dequeueScript now batchSize s.store).2.delayedMessages.entries = [] := by
    have hs' : s.store.delayedMessages.entries = [toLex (nearestInt c.dispatchTime, id)] := hs
    simp [dequeueScript, hsel, DelayedStore.claimLoop, ZSet.remove, ZSet.keep, hs']
  have hbeat : beat spec codec batchSize now s = (codec.load b).toList.foldl (dispatch spec)
      { s with store := (dequeueScript now batchSize s.store).2 } := by
    have hloaded : [b].filterMap codec.load = (codec.load b).toList := by
      cases h : codec.load b <;> simp [h]
    rw [beat, DelayedStore.dequeueNextDelayedMessages, hpayloads, hloaded]
  refine ⟨?_, hbeat⟩
  rw [hbeat]
  cases codec.load b with
  | none => exact hentries
  | some m =>
    simp only [Option.toList_some, List.foldl_cons, List.foldl_nil, dispatch]
    split <;> exact hentries

end Store

/-- The ends of an execution that found the queue holding its delivery only. -/
inductive Outcome (spec : HandlerSpec) (interceptors : List Interceptor) (codec : Codec)
    (d : Delivery) (x : Execution) (s s' : System) : Prop where
  | succeeded (ending : x.ending = .returned)
      (settled : (record spec interceptors d x).settled = [.ack])
      (copied : (record spec interceptors d x).copied = [])
      (next : s' = { s with queue := [], history := s.history ++ [record spec interceptors d x] })
  | rejected (ending : x.ending ≠ .returned)
      (settled : (record spec interceptors d x).settled = [.reject false])
      (copied : (record spec interceptors d x).copied = [])
      (next : s' = { s with
        queue := []
        deadLettered := s.deadLettered ++ [d]
        history := s.history ++ [record spec interceptors d x] })
  | retried (ending : x.ending ≠ .returned) {n : Int} (count : getRetryCount d.headers = some n)
      (budget : n < spec.retryPolicy.maxRetries)
      (settled : (record spec interceptors d x).settled = [.ack])
      (time : Int) (text : Option String) (env : SettleEnv) (mem : env ∈ environments x)
      (fits : Storable time)
      (copied : (record spec interceptors d x).copied =
        [retryCopy spec d (workHeaders interceptors d x) n time text env])
      (uuid : String) (b : Bytes)
      (dumped : codec.dump (retryCopy spec d (workHeaders interceptors d x) n time text env) =
        .ok b)
      (next : s' = { s with
        queue := []
        store := (DelayedStore.enqueueDelayedMessage codec
          (retryCopy spec d (workHeaders interceptors d x) n time text env) uuid s.store).2
        history := s.history ++ [record spec interceptors d x] })
  /-- no count can be read, or the failure makes no copy -/
  | stuck (unmade : ∀ n, getRetryCount d.headers = some n → Unmade spec n x)
      (settled : (record spec interceptors d x).settled = [])
      (copied : (record spec interceptors d x).copied = [])
      (next : s' = { s with
        queue := []
        unacked := s.unacked ++ [d]
        history := s.history ++ [record spec interceptors d x] })

section Steps

variable {spec : HandlerSpec} {interceptors : List Interceptor} {codec : Codec} {batchSize : Nat}

variable (codec) in
theorem executed_eq {d : Delivery} {x : Execution} {ops : List Settlement}
    {cs : List DelayedMessageData} (hset : settlements (final spec interceptors d x).log = ops)
    (hcop : copies (final spec interceptors d x).log = cs) (uuids : List String)
    (rest : List Delivery) (s : System) :
    executed spec interceptors codec uuids rest d x s = afterSettlement d { s with
      queue := rest
      store := enqueueAll codec (cs.zip uuids) s.store
      history := s.history ++ [record spec interceptors d x] } ops := by
  rw [← hset, ← hcop]
  rfl

/-- What an attempt with a successful hand-off does to the system. -/
theorem executed_outcome {d : Delivery} {x : Execution} {uuids : List String} (s : System)
    (ha : Attempt spec interceptors d x) (ho : HandsOff spec d x)
    (hlen : uuids.length = (record spec interceptors d x).copied.length)
    (hdump : ∀ c ∈ (record spec interceptors d x).copied, ∃ b, codec.dump c = .ok b) :
    Outcome spec interceptors codec d x s (executed spec interceptors codec uuids [] d x s) := by
  cases hn : getRetryCount d.headers with
  | none =>
    obtain ⟨e, he⟩ := handleMessage_unread spec interceptors x hn {}
    have hset : settlements (final spec interceptors d x).log =
        [] := by simp [final, he, settlements]
    have hcop : copies (final spec interceptors d x).log = [] := by simp [final, he, copies]
    exact .stuck (by simp [hn]) hset hcop (executed_eq codec hset hcop uuids [] s)
  | some n =>
    obtain ⟨hx, hset, hcop⟩ | ⟨hx, hreport⟩ := attempt_report hn ha ho
    · exact .succeeded hx hset hcop (executed_eq codec hset hcop uuids [] s)
    · cases hreport with
      | rejected hset hcop => exact .rejected hx hset hcop (executed_eq codec hset hcop uuids [] s)
      | scheduled hmax hset time text env hmem hbounded hcop =>
        obtain ⟨b, hb⟩ := hdump _ (by rw [record, hcop]; exact List.mem_singleton_self _)
        rw [record, hcop, List.length_singleton] at hlen
        obtain ⟨uuid, rfl⟩ := List.length_eq_one_iff.mp hlen
        obtain ⟨q, hq, rfl⟩ := hbounded
        exact .retried hx hn (by omega) hset _ text env hmem
          (DelayedStore.storable_truncate hq) hcop
          uuid b hb (executed_eq codec hset hcop [uuid] [] s)
      | stuck hunmade hset hcop =>
        refine .stuck ?_ hset hcop (executed_eq codec hset hcop uuids [] s)
        intro n' hn'
        rw [hn, Option.some.injEq] at hn'
        rwa [← hn']

/-- Where the message is: in the queue, as its latest copy in the store, or nowhere. -/
inductive Place (codec : Codec) (s : System) (d : Delivery) : Prop where
  | queued (queue : s.queue = [d]) (waiting : s.waiting = [])
      (count : s.history.length = s.copied.length)
  | stored (queue : s.queue = []) (c : DelayedMessageData) (id : String) (b : Bytes)
      (waiting : s.waiting = [toLex (nearestInt c.dispatchTime, id)])
      (metadata : s.store.metadata (metadataKey id) = some b) (dumped : codec.dump c = .ok b)
      (last : s.copied.getLast? = some c) (count : s.history.length = s.copied.length)
  | gone (queue : s.queue = []) (waiting : s.waiting = [])
      (count : s.history.length ≤ s.copied.length + 1)

/-- The copies made so far form one line, its latest delivery is in one place, and every
copy was paid from the budget. -/
structure Tracked (spec : HandlerSpec) (msg : Delivery) (U : Headers → SettleEnv → Prop)
    (codec : Codec) (s : System) : Prop where
  line : ∃ d, Lineage spec msg U s.copied d ∧ Place codec s d
  elsewhere : s.elsewhere = []
  budget : s.copied = [] ∨ ∃ n₀, getRetryCount msg.headers = some n₀ ∧
    n₀ + s.copied.length ≤ spec.retryPolicy.maxRetries

theorem copied_snoc (s : System) (r : Record) :
    (s.history ++ [r]).flatMap Record.copied = s.copied ++ r.copied := by
  simp [System.copied, List.flatMap_append]

/-- Only the latest delivery of the line can be executed. -/
theorem Place.executable {s : System} {d d' : Delivery} {before after : List Delivery}
    (hp : Place codec s d) (hq : s.queue = before ++ d' :: after) :
    d' = d ∧ before ++ after = [] ∧ s.waiting = [] ∧ s.history.length = s.copied.length := by
  cases hp with
  | queued queue waiting count =>
    rw [queue] at hq
    cases before with
    | nil =>
      simp only [List.nil_append, List.cons.injEq] at hq
      obtain ⟨rfl, rfl⟩ := hq
      exact ⟨rfl, rfl, waiting, count⟩
    | cons a before => simp at hq
  | stored queue c id b waiting metadata dumped last count => simp [queue] at hq
  | gone queue waiting count => simp [queue] at hq

/-- What a cycle of a beat worker does. -/
inductive Cycle (codec : Codec) (batchSize : Nat) (now : Int) (s s' : System) : Prop where
  | idle (early : ∀ e ∈ s.waiting, ¬(score e ≤ nearestInt now ∧ 1 ≤ batchSize)) (next : s' = s)
  | lost (c : DelayedMessageData) (last : s.copied.getLast? = some c) (b : Bytes)
      (dumped : codec.dump c = .ok b) (unreadable : codec.load b = none) (store : Store)
      (empty : store.delayedMessages.entries = []) (queue : s.queue = [])
      (count : s.history.length = s.copied.length) (next : s' = { s with store := store })
  | delivered (c : DelayedMessageData) (last : s.copied.getLast? = some c)
      (pending : s.waiting ≠ []) (store : Store)
      (empty : store.delayedMessages.entries = []) (queue : s.queue = [])
      (count : s.history.length = s.copied.length)
      (next : s' = { s with queue := [dispatched c], store := store })

variable (batchSize) in
/-- A cycle moves a copy that is due to the queue, or leaves it in the store. -/
theorem Place.cycle {msg d : Delivery} {U : Headers → SettleEnv → Prop} {s : System}
    (hp : Place codec s d) (hcodec : Lossless codec) (hname : spec.queueName ≠ "")
    (hl : Lineage spec msg U s.copied d) (now : Int) :
    Cycle codec batchSize now s (beat spec codec batchSize now s) := by
  cases hp with
  | queued queue waiting count =>
    exact .idle (by simp [waiting]) (beat_idle codec spec (selected_empty waiting now batchSize))
  | gone queue waiting count =>
    exact .idle (by simp [waiting]) (beat_idle codec spec (selected_empty waiting now batchSize))
  | stored queue c id b waiting metadata dumped last count =>
    by_cases hdue : nearestInt c.dispatchTime ≤ nearestInt now ∧ 1 ≤ batchSize
    · obtain ⟨hempty, hbeat⟩ := beat_single codec spec waiting metadata hdue
      cases hload : codec.load b with
      | none =>
        rw [hbeat, hload] at hempty ⊢
        exact .lost c last b dumped hload _ hempty queue count rfl
      | some m =>
        have hm := hcodec.faithful c b m dumped hload
        subst hm
        have htarget : truthy m.targetQueue = some spec.queueName := by
          rw [hl.target m (List.mem_of_getLast? last)]
          exact truthy_of_ne (by simpa using hname)
        rw [hbeat, hload] at hempty ⊢
        simp only [Option.toList_some, List.foldl_cons, List.foldl_nil, dispatch, htarget, if_true,
          queue, List.nil_append] at hempty ⊢
        exact .delivered m last (by simp [waiting]) _ hempty queue count rfl
    · have hsel : selected s.store now batchSize = [] := by
        rw [selected_single waiting]
        exact if_neg hdue
      exact .idle (by simpa [waiting] using hdue) (beat_idle codec spec hsel)

variable {P : Delivery → Execution → Prop} {msg : Delivery} {U : Headers → SettleEnv → Prop}

/-- The executions of a run are attempts with successful hand-offs, in surroundings as
`U` says. -/
structure Allowed (spec : HandlerSpec) (interceptors : List Interceptor) (msg : Delivery)
    (U : Headers → SettleEnv → Prop) (P : Delivery → Execution → Prop) : Prop where
  attempt : ∀ d x, P d x → Attempt spec interceptors d x
  handsOff : ∀ d x, P d x → HandsOff spec d x
  surroundings : ∀ cs d x, Lineage spec msg U cs d → P d x → ∀ env ∈ environments x,
    U (workHeaders interceptors d x) env

theorem tracked_start : Tracked spec msg U codec (start msg) where
  line := ⟨msg, .start, .queued rfl rfl rfl⟩
  elsewhere := rfl
  budget := .inl rfl

/-- An execution that makes no copy ends the line. -/
theorem Tracked.ended {s s' : System} (ht : Tracked spec msg U codec s) {r : Record}
    (hr : r.copied = []) (hcount : s.history.length = s.copied.length)
    (hqueue : s'.queue = []) (hwaiting : s'.waiting = []) (helse : s'.elsewhere = s.elsewhere)
    (hhistory : s'.history = s.history ++ [r]) : Tracked spec msg U codec s' := by
  have hcopied : s'.copied = s.copied := by
    rw [System.copied, hhistory, copied_snoc, hr, List.append_nil]
  obtain ⟨d, hl, -⟩ := ht.line
  refine ⟨⟨d, ?_, ?_⟩, helse.trans ht.elsewhere, ?_⟩
  · rw [hcopied]
    exact hl
  · refine .gone hqueue hwaiting ?_
    rw [hhistory, hcopied, List.length_append, List.length_singleton]
    omega
  · rw [hcopied]
    exact ht.budget

/-- An execution adds its record and at most one copy. -/
theorem Tracked.executed {s s' : System} {d : Delivery} {x : Execution}
    (ht : Tracked spec msg U codec s) (hl : Lineage spec msg U s.copied d)
    (hwaiting : s.waiting = []) (hcount : s.history.length = s.copied.length)
    (hu : ∀ env ∈ environments x, U (workHeaders interceptors d x) env)
    (ho : Outcome spec interceptors codec d x s s') : Tracked spec msg U codec s' := by
  cases ho with
  | succeeded ending settled copied next =>
    subst next
    exact ht.ended copied hcount rfl hwaiting rfl rfl
  | rejected ending settled copied next =>
    subst next
    exact ht.ended copied hcount rfl hwaiting rfl rfl
  | stuck unmade settled copied next =>
    subst next
    exact ht.ended copied hcount rfl hwaiting rfl rfl
  | @retried ending n count budget settled time text env mem fits copied uuid b dumped next =>
    obtain ⟨n₀, hn₀⟩ := hl.reads count
    have hcopied : s'.copied = s.copied ++
        [retryCopy spec d (workHeaders interceptors d x) n time text env] := by
      rw [next, System.copied, copied_snoc, copied]
    have hlength : s'.history.length = s'.copied.length := by
      rw [hcopied, next]
      simp [hcount]
    obtain ⟨hentries, hmetadata⟩ := enqueue_empty rfl dumped fits uuid hwaiting
    refine ⟨⟨dispatched (retryCopy spec d (workHeaders interceptors d x) n time text env), ?_, ?_⟩,
      ?_, ?_⟩
    · rw [hcopied]
      exact hl.retry count _ time text env (hu env mem)
    · refine .stored (by rw [next]) _ uuid b ?_ ?_ dumped ?_ hlength
      · rw [next]
        exact hentries
      · rw [next]
        exact hmetadata
      · rw [hcopied, List.getLast?_append, List.getLast?_singleton, Option.some_or]
    · rw [next]
      exact ht.elsewhere
    · refine .inr ⟨n₀, hn₀, ?_⟩
      have hn := (hl.counts hn₀).1
      rw [count, Option.some.injEq] at hn
      rw [hcopied, List.length_append, List.length_singleton]
      push_cast
      omega

theorem Tracked.cycled {s s' : System} {now : Int} (ht : Tracked spec msg U codec s)
    {d : Delivery} (hl : Lineage spec msg U s.copied d)
    (hc : Cycle codec batchSize now s s') : Tracked spec msg U codec s' := by
  cases hc with
  | idle early next =>
    rw [next]
    exact ht
  | lost c last b dumped unreadable store empty queue count next =>
    subst next
    exact ⟨⟨d, hl, .gone queue empty (Nat.le_succ_of_le count.le)⟩, ht.elsewhere, ht.budget⟩
  | delivered c last pending store empty queue count next =>
    subst next
    rw [hl.tip_of_last last] at hl
    exact ⟨⟨_, hl, .queued rfl empty count⟩, ht.elsewhere, ht.budget⟩

theorem tracked_step (hallowed : Allowed spec interceptors msg U P) (hcodec : Lossless codec)
    (hname : spec.queueName ≠ "") {s s' : System} (ht : Tracked spec msg U codec s)
    (hstep : Step spec interceptors codec batchSize P s s') : Tracked spec msg U codec s' := by
  obtain ⟨d, hl, hp⟩ := ht.line
  cases hstep with
  | execute x uuids queued allowed drawn written =>
    obtain ⟨rfl, hrest, hwaiting, hcount⟩ := hp.executable queued
    rw [hrest]
    exact ht.executed hl hwaiting hcount (hallowed.surroundings _ _ _ hl allowed)
      (executed_outcome s (hallowed.attempt _ _ allowed)
        (hallowed.handsOff _ _ allowed) drawn written)
  | beat now => exact ht.cycled hl (hp.cycle batchSize hcodec hname hl now)

/-- In every run the executions are those of the message and then of its copies, in order. -/
theorem tracked_run (hallowed : Allowed spec interceptors msg U P) (hcodec : Lossless codec)
    (hname : spec.queueName ≠ "") {s : System}
    (hrun : Reachable spec interceptors codec batchSize P msg s) : Tracked spec msg U codec s := by
  induction hrun with
  | refl => exact tracked_start
  | tail _ hstep ih => exact tracked_step hallowed hcodec hname ih hstep

/-- The copies a budget allows. -/
theorem Tracked.copies_le {s : System} (ht : Tracked spec msg U codec s)
    (hmax : 0 ≤ spec.retryPolicy.maxRetries)
    (hmsg : ∀ n₀, getRetryCount msg.headers = some n₀ → 0 ≤ n₀) :
    (s.copied.length : Int) ≤ spec.retryPolicy.maxRetries := by
  obtain hnil | ⟨n₀, hn₀, hle⟩ := ht.budget
  · simpa [hnil] using hmax
  · have := hmsg n₀ hn₀
    omega

/-- The executions a budget allows. -/
theorem Tracked.executions_le {s : System} (ht : Tracked spec msg U codec s)
    (hmax : 0 ≤ spec.retryPolicy.maxRetries)
    (hmsg : ∀ n₀, getRetryCount msg.headers = some n₀ → 0 ≤ n₀) :
    (s.history.length : Int) ≤ spec.retryPolicy.maxRetries + 1 := by
  have hcopies := ht.copies_le hmax hmsg
  obtain ⟨d, -, hp⟩ := ht.line
  cases hp with
  | queued queue waiting count => omega
  | stored queue c id b waiting metadata dumped last count => omega
  | gone queue waiting count => omega

variable (codec batchSize) in
/-- A copy that is handed off and reads back comes round to the queue. -/
theorem retry_round {d : Delivery} {x : Execution} {c : DelayedMessageData} {b : Bytes} {s : System}
    (hqueue : s.queue = [d]) (hwaiting : s.waiting = []) (hx : P d x)
    (hset : settlements (final spec interceptors d x).log = [.ack])
    (hcop : copies (final spec interceptors d x).log = [c]) (hkey : c.idempotencyKey = none)
    (hfits : Storable c.dispatchTime)
    (htarget : truthy c.targetQueue = some spec.queueName) (hdump : codec.dump c = .ok b)
    (hload : codec.load b = some c) (hbatch : 1 ≤ batchSize) :
    ∃ s', Relation.ReflTransGen (Step spec interceptors codec batchSize P) s s' ∧
      s'.queue = [dispatched c] ∧ s'.waiting = [] ∧
      s'.history = s.history ++ [record spec interceptors d x] := by
  have honly : s.queue = [] ++ d :: [] := hqueue
  have hwritten : ∀ c' ∈ (record spec interceptors d x).copied, ∃ b, codec.dump c' = .ok b := by
    intro c' hc'
    rw [record, hcop, List.mem_singleton] at hc'
    rw [hc']
    exact ⟨b, hdump⟩
  have hexecute : Step spec interceptors codec batchSize P s
      (executed spec interceptors codec ["uuid"] ([] ++ []) d x s) :=
    .execute x ["uuid"] honly hx (by simp [record, hcop]) hwritten
  rw [List.append_nil, executed_eq codec hset hcop] at hexecute
  obtain ⟨hentries, hmetadata⟩ := enqueue_empty hkey hdump hfits "uuid" hwaiting
  obtain ⟨hempty, hbeat⟩ := beat_single codec spec (s := afterSettlement d { s with
      queue := []
      store := enqueueAll codec ([c].zip ["uuid"]) s.store
      history := s.history ++ [record spec interceptors d x] } [.ack])
    hentries hmetadata ⟨le_refl (nearestInt c.dispatchTime), hbatch⟩
  refine ⟨_, .tail (.single hexecute) (.beat c.dispatchTime), ?_, hempty, ?_⟩
  · rw [hbeat, hload]
    simp [dispatch, htarget, afterSettlement]
  · rw [hbeat, hload]
    simp [dispatch, htarget, afterSettlement]

/-- A step under a condition is one under any weaker condition. -/
theorem Step.mono {Q : Delivery → Execution → Prop} (hPQ : ∀ d x, P d x → Q d x) {s s' : System}
    (hstep : Step spec interceptors codec batchSize P s s') :
    Step spec interceptors codec batchSize Q s s' := by
  cases hstep with
  | execute x uuids queued allowed drawn written =>
    exact .execute x uuids queued (hPQ _ _ allowed) drawn written
  | beat now => exact .beat now

/-- One execution without a copy, of the only delivery in the queue. -/
theorem Step.alone {d : Delivery} {x : Execution} {ops : List Settlement} {s : System}
    (hqueue : s.queue = [d]) (hx : P d x)
    (hset : settlements (final spec interceptors d x).log = ops)
    (hcop : copies (final spec interceptors d x).log = []) :
    Step spec interceptors codec batchSize P s (afterSettlement d { s with
      queue := []
      history := s.history ++ [record spec interceptors d x] } ops) := by
  have honly : s.queue = [] ++ d :: [] := hqueue
  have hexecute : Step spec interceptors codec batchSize P s
      (executed spec interceptors codec [] ([] ++ []) d x s) :=
    .execute x [] honly hx (by simp [record, hcop]) (by simp [record, hcop])
  rw [List.append_nil, executed_eq codec hset hcop] at hexecute
  exact hexecute

variable (codec batchSize) in
/-- A delivery that an execution requeues can be executed any number of times. -/
theorem requeued_forever {x : Execution} (hx : P msg x)
    (hset : settlements (final spec interceptors msg x).log = [.reject true])
    (hcop : copies (final spec interceptors msg x).log = []) (k : Nat) :
    ∃ s, Reachable spec interceptors codec batchSize P msg s ∧ s.queue = [msg] ∧
      s.history.length = k := by
  induction k with
  | zero => exact ⟨start msg, .refl, rfl, rfl⟩
  | succ k ih =>
    obtain ⟨s, hrun, hqueue, hlength⟩ := ih
    refine ⟨_, hrun.tail (Step.alone hqueue hx hset hcop), rfl, ?_⟩
    simp [hlength]

end Steps

end RetryRuns

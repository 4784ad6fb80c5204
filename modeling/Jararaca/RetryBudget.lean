import Jararaca.RetryRuns

/-!
# The retry budget

What a message costs over a whole run. Where every hand-off succeeds, the executions are
bounded by the budget; where the times, the headers and the texts of the failures can be
written too, no delivery is lost on the way, and the last one of a message that always fails
is dead-lettered.
-/
namespace RetryBudget

open Messages SortedSets UnitOfWork Interceptors Worker WorkerRules WorkerOutcomes WorkerSettlement
open RetryAttempts RetryLineage RetryRuns
open DelayedStore (Codec Storable)
open Doubles (nearestInt nearestInt_mono nearestInt_nearestInt)

section Budget

variable {spec : HandlerSpec} {interceptors : List Interceptor} {codec : Codec} {batchSize : Nat}
  {msg : Delivery} {s s' : System}

/-- The headers around an execution are finite, and the uuids it draws are texts. -/
structure FiniteHeaders (x : Execution) : Prop where
  ambient : Fields x.ambient
  extra : ∀ env ∈ environments x, Fields env.extra
  uuids : ∀ env ∈ environments x, env.uuid ≠ ""

/-- The attempts whose hand-offs are accepted, under finite headers. -/
structure Handed (spec : HandlerSpec) (interceptors : List Interceptor) (d : Delivery)
    (x : Execution) : Prop where
  attempt : Attempt spec interceptors d x
  handsOff : HandsOff spec d x
  finite : FiniteHeaders x

/-- The executions of which nothing is lost: what the handler raises has a text, and while
the budget lasts the backoff of a failure is a time. -/
structure Regular (spec : HandlerSpec) (interceptors : List Interceptor) (d : Delivery)
    (x : Execution) : Prop extends Handed spec interceptors d x where
  made : ∀ n, getRetryCount d.headers = some n → ¬Unmade spec n x

structure Configured (spec : HandlerSpec) (interceptors : List Interceptor) : Prop where
  name : spec.queueName ≠ ""
  budget : 0 ≤ spec.retryPolicy.maxRetries
  provides : ∀ i ∈ interceptors, Fields i.provides

/-- A message published without `x-retry-count`, with finite headers. -/
structure Fresh (msg : Delivery) : Prop where
  count : msg.headers xRetryCount = none
  headers : Writable msg.headers.scalars
  contentType : msg.contentType ≠ some ""
  contentEncoding : msg.contentEncoding ≠ some ""

theorem Fresh.zero (hf : Fresh msg) : getRetryCount msg.headers = some 0 := by
  simp [getRetryCount, hf.count]

/-- What is known of the surroundings of a copy. -/
def Known (implicit : Headers) (env : SettleEnv) : Prop :=
  env.uuid ≠ "" ∧ Fields (implicit.merge env.extra)

theorem regular_allowed (hspec : Configured spec interceptors) (hfresh : Fresh msg) :
    Allowed spec interceptors msg Known (Regular spec interceptors) where
  attempt _ _ h := h.attempt
  handsOff _ _ h := h.handsOff
  surroundings cs d x hl h env henv := by
    obtain ⟨hd, -⟩ := hl.writable hfresh.headers fun _ _ hu => hu.2
    have hwork := workHeaders_fields h.finite.ambient hd hspec.provides
    exact ⟨h.finite.uuids env henv, hwork.merge (h.finite.extra env henv)⟩

/-- Nothing of the message is lost: every execution settled its delivery once, the
deliveries executed are the message and then its copies in order, and a line that ended
was acknowledged or dead-lettered. -/
structure Conserved (msg : Delivery) (s : System) : Prop where
  settled : ∀ r ∈ s.history, r.settled.length = 1 ∧ r.copied.length ≤ 1
  unacked : s.unacked = []
  deliveries : s.history.map Record.delivery <+: msg :: s.copied.map dispatched
  alive : s.queue ≠ [] ∨ s.waiting ≠ [] → s.deadLettered = []
  ended : s.queue = [] → s.waiting = [] → ∃ r, s.history.getLast? = some r ∧
    ((r.execution.ending = .returned ∧ s.deadLettered = []) ∨
      (r.settled = [.reject false] ∧ s.deadLettered = [r.delivery]))

theorem conserved_start : Conserved msg (start msg) where
  settled := by simp [start]
  unacked := rfl
  deliveries := by simp [start]
  alive := fun _ => rfl
  ended := by simp [start]

/-- A prefix that lacks only the last element. -/
theorem snoc_of_prefix {α : Type*} {first all : List α} {last : α} (h : first <+: all)
    (hlen : all.length = first.length + 1) (hlast : all.getLast? = some last) :
    first ++ [last] = all := by
  obtain ⟨rest, rfl⟩ := h
  have hone : rest.length = 1 := by
    rw [List.length_append] at hlen
    omega
  obtain ⟨a, rfl⟩ := List.length_eq_one_iff.mp hone
  rw [List.getLast?_append, List.getLast?_singleton, Option.some_or, Option.some.injEq] at hlast
  rw [hlast]

/-- The facts about a history that one more execution of the latest delivery keeps. -/
theorem Conserved.deliveries_snoc {U : Headers → SettleEnv → Prop} {d : Delivery} {x : Execution}
    (hc : Conserved msg s) (hl : Lineage spec msg U s.copied d)
    (hcount : s.history.length = s.copied.length)
    (hhistory : s'.history = s.history ++ [record spec interceptors d x]) :
    s'.history.map Record.delivery <+: msg :: s'.copied.map dispatched := by
  have hfull : s.history.map Record.delivery ++ [d] = msg :: s.copied.map dispatched :=
    snoc_of_prefix hc.deliveries (by simp [hcount]) hl.tip
  have hdeliveries : s'.history.map Record.delivery = msg :: s.copied.map dispatched := by
    rw [hhistory, List.map_append, ← hfull]
    rfl
  have hcopied : s'.copied = s.copied ++ (record spec interceptors d x).copied := by
    rw [System.copied, hhistory, copied_snoc]
  rw [hdeliveries, hcopied, List.map_append]
  exact ⟨_, rfl⟩

theorem Conserved.settled_snoc {r : Record} (hc : Conserved msg s)
    (hr : r.settled.length = 1 ∧ r.copied.length ≤ 1) (hhistory : s'.history = s.history ++ [r]) :
    ∀ r' ∈ s'.history, r'.settled.length = 1 ∧ r'.copied.length ≤ 1 := by
  intro r' hr'
  rw [hhistory] at hr'
  obtain hold | hnew := List.mem_append.mp hr'
  · exact hc.settled r' hold
  · rw [List.mem_singleton.mp hnew]
    exact hr

/-- An execution that settles its delivery once loses nothing. -/
theorem Conserved.executed {U : Headers → SettleEnv → Prop} {d : Delivery} {x : Execution}
    (hc : Conserved msg s) (hl : Lineage spec msg U s.copied d) (hqueue : s.queue ≠ [])
    (hwaiting : s.waiting = []) (hcount : s.history.length = s.copied.length)
    (hready : ∃ n, getRetryCount d.headers = some n ∧ ¬Unmade spec n x)
    (ho : Outcome spec interceptors codec d x s s') : Conserved msg s' := by
  have hdead := hc.alive (.inl hqueue)
  cases ho with
  | succeeded ending settled copied next =>
    subst next
    exact
      { settled := hc.settled_snoc (by simp [settled, copied]) rfl
        unacked := hc.unacked
        deliveries := hc.deliveries_snoc hl hcount rfl
        alive := fun _ => hdead
        ended := fun _ _ => ⟨_, List.getLast?_concat, .inl ⟨ending, hdead⟩⟩ }
  | rejected ending settled copied next =>
    subst next
    exact
      { settled := hc.settled_snoc (by simp [settled, copied]) rfl
        unacked := hc.unacked
        deliveries := hc.deliveries_snoc hl hcount rfl
        alive := by
          rintro (h | h)
          · exact absurd rfl h
          · exact absurd hwaiting h
        ended := fun _ _ => ⟨_, List.getLast?_concat, .inr ⟨settled, by simp [hdead, record]⟩⟩ }
  | @retried ending n count budget settled time text env mem fits copied uuid b dumped next =>
    obtain ⟨hentries, -⟩ := enqueue_empty rfl dumped fits uuid hwaiting
    subst next
    exact
      { settled := hc.settled_snoc (by simp [settled, copied]) rfl
        unacked := hc.unacked
        deliveries := hc.deliveries_snoc hl hcount rfl
        alive := fun _ => hdead
        ended := by
          intro _ h
          rw [System.waiting, hentries] at h
          cases h }
  | stuck unmade settled copied next =>
    -- the count of the line is readable and its copy can be made
    obtain ⟨n, hn, hmade⟩ := hready
    exact absurd (unmade n hn) hmade

/-- A copy with finite headers reads back. -/
theorem readable (hcodec : Lossless codec) {c : DelayedMessageData} {b : Bytes}
    (hwritable : ∃ h, c.headers = some h ∧ Writable h) (hdump : codec.dump c = .ok b) :
    codec.load b ≠ none := by
  obtain ⟨h, hheaders, hw⟩ := hwritable
  rw [hcodec.reads c b h hdump hheaders hw]
  exact Option.some_ne_none c

/-- Nor does a cycle of the worker of delayed messages. -/
theorem Conserved.cycled {now : Int} (hc : Conserved msg s) (hcodec : Lossless codec)
    (hwritable : ∀ c ∈ s.copied, ∃ h, c.headers = some h ∧ Writable h)
    (hcycle : Cycle codec batchSize now s s') : Conserved msg s' := by
  cases hcycle with
  | idle early next =>
    rw [next]
    exact hc
  | lost c last b dumped unreadable store empty queue count next =>
    exact absurd unreadable (readable hcodec (hwritable c (List.mem_of_getLast? last)) dumped)
  | delivered c last pending store empty queue count next =>
    subst next
    exact
      { settled := hc.settled
        unacked := hc.unacked
        deliveries := hc.deliveries
        alive := fun _ => hc.alive (.inr pending)
        ended := by simp }

theorem conserved_step (hspec : Configured spec interceptors) (hfresh : Fresh msg)
    (hcodec : Lossless codec) (ht : Tracked spec msg Known codec s) (hc : Conserved msg s)
    (hstep : Step spec interceptors codec batchSize (Regular spec interceptors) s s') :
    Conserved msg s' := by
  obtain ⟨d, hl, hp⟩ := ht.line
  obtain ⟨hcount, -⟩ := hl.counts hfresh.zero
  cases hstep with
  | execute x uuids queued allowed drawn written =>
    obtain ⟨rfl, hrest, hwaiting, hlength⟩ := hp.executable queued
    rw [hrest]
    exact hc.executed hl (by simp [queued]) hwaiting hlength ⟨_, hcount, allowed.made _ hcount⟩
      (executed_outcome s allowed.attempt allowed.handsOff drawn written)
  | beat now =>
    obtain ⟨-, hwritable⟩ := hl.writable hfresh.headers fun _ _ hu => hu.2
    exact hc.cycled hcodec hwritable (hp.cycle batchSize hcodec hspec.name hl now)

/-- Nothing is lost in a run of regular executions. -/
theorem conserved_run (hspec : Configured spec interceptors) (hfresh : Fresh msg)
    (hcodec : Lossless codec)
    (hrun : Reachable spec interceptors codec batchSize (Regular spec interceptors) msg s) :
    Tracked spec msg Known codec s ∧ Conserved msg s := by
  induction hrun with
  | refl => exact ⟨tracked_start, conserved_start⟩
  | tail _ hstep ih =>
    obtain ⟨ht, hc⟩ := ih
    exact ⟨tracked_step (regular_allowed hspec hfresh) hcodec hspec.name ht hstep,
      conserved_step hspec hfresh hcodec ht hc hstep⟩

/-- What the retry budget promises of every state of a run. -/
structure BudgetKept (spec : HandlerSpec) (codec : Codec) (batchSize : Nat) (msg : Delivery)
    (s : System) : Prop where
  /-- each delivery is settled once and yields at most one copy -/
  settled : ∀ r ∈ s.history, r.settled.length = 1 ∧ r.copied.length ≤ 1
  unacked : s.unacked = []
  counts : ∀ (i : Nat) c, s.copied[i]? = some c →
    ∃ h, c.headers = some h ∧ h xRetryCount = some (.int (i + 1))
  executions : (s.history.length : Int) ≤ spec.retryPolicy.maxRetries + 1
  /-- what is executed are the message and then its copies, in order -/
  deliveries : s.history.map Record.delivery <+: msg :: s.copied.map dispatched
  target : ∀ c ∈ s.copied, c.targetQueue = some spec.queueName
  elsewhere : s.elsewhere = []
  content : ∀ d ∈ msg :: s.copied.map dispatched, d.body = msg.body ∧
    d.contentType = msg.contentType ∧ d.contentEncoding = msg.contentEncoding
  messageId : ∃ id, (∀ m, msg.messageId = some m → m ≠ "" → id = m) ∧
    ∀ c ∈ s.copied, c.messageId = some id ∧ (dispatched c).messageId = some id
  /-- at most one delivery or copy is alive, and a copy in the store will be delivered -/
  alive : s.queue.length + s.waiting.length ≤ 1
  delivered : ∀ e ∈ s.waiting, ∀ now, score e ≤ now → 1 ≤ batchSize →
    (beat spec codec batchSize now s).queue.length = 1
  /-- the budget ends the line -/
  spent : (s.history.length : Int) = spec.retryPolicy.maxRetries + 1 → s.queue = [] ∧ s.waiting = []
  rejected : (∀ r ∈ s.history, r.execution.ending ≠ .returned) → s.queue = [] → s.waiting = [] →
    ∃ r, s.history.getLast? = some r ∧ r.settled = [.reject false] ∧ s.deadLettered = [r.delivery]

variable {U : Headers → SettleEnv → Prop}

/-- At most one delivery of the message is under way. -/
theorem tracked_alive (ht : Tracked spec msg U codec s) :
    s.queue.length + s.waiting.length ≤ 1 := by
  obtain ⟨d, -, hp⟩ := ht.line
  cases hp with
  | queued queue waiting count => simp [queue, waiting]
  | stored queue c id b waiting metadata dumped last count => simp [queue, waiting]
  | gone queue waiting count => simp [queue, waiting]

/-- With the budget spent none is. -/
theorem tracked_spent (ht : Tracked spec msg U codec s) (hmax : 0 ≤ spec.retryPolicy.maxRetries)
    (hmsg : ∀ n₀, getRetryCount msg.headers = some n₀ → 0 ≤ n₀)
    (hall : (s.history.length : Int) = spec.retryPolicy.maxRetries + 1) :
    s.queue = [] ∧ s.waiting = [] := by
  have hcopies := ht.copies_le hmax hmsg
  obtain ⟨d, -, hp⟩ := ht.line
  cases hp with
  | queued queue waiting count => omega
  | stored queue c id b waiting metadata dumped last count => omega
  | gone queue waiting count => exact ⟨queue, waiting⟩

/-- What waits in the store has a double for its score. -/
theorem tracked_score (ht : Tracked spec msg U codec s) {e : Int ×ₗ String} (he : e ∈ s.waiting) :
    nearestInt (score e) = score e := by
  obtain ⟨d, -, hp⟩ := ht.line
  cases hp with
  | queued queue waiting count => simp [waiting] at he
  | stored queue c id b waiting metadata dumped last count =>
    rw [waiting, List.mem_singleton] at he
    rw [he]
    exact nearestInt_nearestInt c.dispatchTime
  | gone queue waiting count => simp [waiting] at he

/-- A due copy is delivered by the next cycle. -/
theorem tracked_delivered (ht : Tracked spec msg Known codec s) (hfresh : Fresh msg)
    (hcodec : Lossless codec) (hname : spec.queueName ≠ "") {e : Int ×ₗ String}
    (he : e ∈ s.waiting) {now : Int} (hnow : score e ≤ now) (hbatch : 1 ≤ batchSize) :
    (beat spec codec batchSize now s).queue.length = 1 := by
  obtain ⟨d, hl, hp⟩ := ht.line
  obtain ⟨-, hwritable⟩ := hl.writable hfresh.headers fun _ _ hu => hu.2
  cases hp.cycle batchSize hcodec hname hl now with
  | idle early next =>
    have hdue : score e ≤ nearestInt now := by
      rw [← tracked_score ht he]
      exact nearestInt_mono hnow
    exact absurd ⟨hdue, hbatch⟩ (early e he)
  | lost c last b dumped unreadable store empty queue count next =>
    exact absurd unreadable (readable hcodec (hwritable c (List.mem_of_getLast? last)) dumped)
  | delivered c last pending store empty queue count next =>
    rw [next]
    rfl

/-- Every copy has the body and the content type of the message. -/
theorem lineage_content {cs : List DelayedMessageData} {d : Delivery} (hl : Lineage spec msg U cs d)
    (hfresh : Fresh msg) : ∀ d' ∈ msg :: cs.map dispatched, d'.body = msg.body ∧
      d'.contentType = msg.contentType ∧ d'.contentEncoding = msg.contentEncoding := by
  obtain ⟨-, hall⟩ := hl.content hfresh.contentType hfresh.contentEncoding
  intro d' hd'
  obtain rfl | hcopy := List.mem_cons.mp hd'
  · exact ⟨rfl, rfl, rfl⟩
  · obtain ⟨c, hc, rfl⟩ := List.mem_map.mp hcopy
    obtain ⟨-, hbody, htype, henc⟩ := hall c hc
    refine ⟨hbody, ?_, ?_⟩
    · change truthy c.contentType = msg.contentType
      rw [htype, truthy_of_ne hfresh.contentType]
    · change truthy c.contentEncoding = msg.contentEncoding
      rw [henc, truthy_of_ne hfresh.contentEncoding]

/-- Every copy has one message id, the message's own where it has one. -/
theorem lineage_messageId {cs : List DelayedMessageData} {d : Delivery}
    (hl : Lineage spec msg Known cs d) :
    ∃ id, (∀ m, msg.messageId = some m → m ≠ "" → id = m) ∧
      ∀ c ∈ cs, c.messageId = some id ∧ (dispatched c).messageId = some id := by
  obtain ⟨hfirst, hall⟩ := hl.ids fun _ _ hu => hu.1
  refine ⟨d.messageId.getD "", ?_, ?_⟩
  · intro m hm hne
    rw [hfirst m hm hne]
    rfl
  · intro c hc
    obtain ⟨hsame, id, hne, hid⟩ := hall c hc
    have hc' : c.messageId = some id := hsame.trans hid
    rw [hid]
    refine ⟨hc', ?_⟩
    change truthy c.messageId = some id
    rw [hc', truthy_of_ne (by simpa using hne)]

/-- In every run of regular executions the retry budget is kept. -/
theorem budget_kept (hspec : Configured spec interceptors) (hfresh : Fresh msg)
    (hcodec : Lossless codec)
    (hrun : Reachable spec interceptors codec batchSize (Regular spec interceptors) msg s) :
    BudgetKept spec codec batchSize msg s := by
  obtain ⟨ht, hc⟩ := conserved_run hspec hfresh hcodec hrun
  obtain ⟨d, hl, -⟩ := ht.line
  have hzero : ∀ n₀, getRetryCount msg.headers = some n₀ → 0 ≤ n₀ := by
    intro n₀ hn₀
    rw [hfresh.zero, Option.some.injEq] at hn₀
    omega
  exact
    { settled := hc.settled
      unacked := hc.unacked
      counts := by
        intro i c hi
        obtain ⟨h, hheaders, hcount⟩ := (hl.counts hfresh.zero).2 i c hi
        rw [Int.zero_add] at hcount
        exact ⟨h, hheaders, hcount⟩
      executions := ht.executions_le hspec.budget hzero
      deliveries := hc.deliveries
      target := hl.target
      elsewhere := ht.elsewhere
      content := lineage_content hl hfresh
      messageId := lineage_messageId hl
      alive := tracked_alive ht
      delivered := fun e he now hnow => tracked_delivered ht hfresh hcodec hspec.name he hnow
      spent := tracked_spent ht hspec.budget hzero
      rejected := by
        intro hfailed hqueue hwaiting
        obtain ⟨r, hlast, ⟨hreturned, -⟩ | hrejected⟩ := hc.ended hqueue hwaiting
        · exact absurd hreturned (hfailed r (List.mem_of_getLast? hlast))
        · exact ⟨r, hlast, hrejected⟩ }

/-- The executions in which every retry is handed off. -/
def Retrying (spec : HandlerSpec) (interceptors : List Interceptor) (d : Delivery) (x : Execution) :
    Prop :=
  Attempt spec interceptors d x ∧ HandsOff spec d x

theorem retrying_allowed :
    Allowed spec interceptors msg (fun _ _ => True) (Retrying spec interceptors) where
  attempt _ _ h := h.1
  handsOff _ _ h := h.2
  surroundings _ _ _ _ _ _ _ := trivial

/-- In every run whose hand-offs succeed, the handler is executed at most `max_retries + 1`
times for one message. -/
theorem executions_bounded (hcodec : Lossless codec) (hname : spec.queueName ≠ "")
    (hmax : 0 ≤ spec.retryPolicy.maxRetries)
    (hmsg : ∀ n₀, getRetryCount msg.headers = some n₀ → 0 ≤ n₀)
    (hrun : Reachable spec interceptors codec batchSize (Retrying spec interceptors) msg s) :
    (s.history.length : Int) ≤ spec.retryPolicy.maxRetries + 1 :=
  (tracked_run retrying_allowed hcodec hname hrun).executions_le hmax hmsg

/-- Where the retry of an execution is not handed off, its delivery comes back with the
headers it had, and no budget bounds the run. -/
theorem executions_unbounded {P : Delivery → Execution → Prop} {x : Execution} (hx : P msg x)
    (ha : Attempt spec interceptors msg x) {n : Int} (hn : getRetryCount msg.headers = some n)
    (hf : HandOffFails spec n x) (k : Nat) :
    ∃ s, Reachable spec interceptors codec batchSize P msg s ∧ s.history.length = k := by
  obtain ⟨hset, hcop⟩ := requeued_report hn ha hf
  obtain ⟨s, hrun, -, hlength⟩ := requeued_forever codec batchSize hx hset hcop k
  exact ⟨s, hrun, hlength⟩

end Budget

def retrySpec (policy : RetryPolicy) : HandlerSpec where
  topic := "task.topic"
  queueName := "task.topic.Task.run"
  timeout := none
  hasExceptionHandler := false
  nackOnException := true
  nackDelayOnException := 5
  retryConfig := some policy
  consumerRetryPolicy := {}

/-- The handler awaits `retry(5)`; the backend answers with `reply`. -/
def asking (reply : Reply) : Execution where
  calls := [{ call := .retry (.finite 5), env := { backend := reply } }]
  ending := .raised (.messageDisposed .retry)

def raising : Execution := { ending := .raised (.error "ValueError" "no such task") }

theorem bare_enters (d : Delivery) (x : Execution) : AllEnter (workContexts [] d x) := by
  intro c hc
  simp only [workContexts, contextsOf, interceptAll, List.mem_cons, List.not_mem_nil,
    or_false] at hc
  rw [hc]
  rfl

theorem asking_attempt (policy : RetryPolicy) (d : Delivery) (reply : Reply) :
    Attempt (retrySpec policy) [] d (asking reply) where
  enters := bare_enters d (asking reply)
  broker := ⟨rfl, by simp [asking]⟩
  recorded := rfl
  handler := by simp [ExceptionHandlerCut, retrySpec]
  kind := .asks _ rfl rfl rfl

theorem raising_attempt (policy : RetryPolicy) (d : Delivery) :
    Attempt (retrySpec policy) [] d raising where
  enters := bare_enters d raising
  broker := ⟨rfl, by simp [raising]⟩
  recorded := rfl
  handler := by simp [ExceptionHandlerCut, retrySpec]
  kind := .raises rfl rfl _ rfl rfl

theorem empty_fields : Fields Headers.empty := fun k v hv => by cases hv

theorem finite_of_default {x : Execution} (ha : x.ambient = Headers.empty)
    (he : ∀ env ∈ environments x, env.extra = Headers.empty ∧ env.uuid = "uuid") :
    FiniteHeaders x where
  ambient := by
    rw [ha]
    exact empty_fields
  extra env henv := by
    rw [(he env henv).1]
    exact empty_fields
  uuids env henv := by
    rw [(he env henv).2]
    decide

theorem asked_time : dispatchTime 0 (.finite 5) = .ok 5 := by
  have hfive : |(5 : ℚ)| < floatLimit := by decide +kernel
  rw [dispatchTime_finite hfive (by rwa [zero_add]), zero_add]
  exact congrArg Except.ok (truncate_intCast 5)

theorem asking_regular (policy : RetryPolicy) (d : Delivery) :
    Regular (retrySpec policy) [] d (asking (.ok ())) where
  attempt := asking_attempt policy d (.ok ())
  handsOff := by
    refine ⟨rfl, fun c hc => ?_⟩
    rw [List.mem_singleton.mp hc]
    exact ⟨rfl, rfl, .finite 5, rfl, fun _ _ _ => ⟨5, asked_time⟩⟩
  finite := finite_of_default rfl (by simp [environments, asking])
  made := by
    rintro n - ⟨e, hx, he, -⟩
    cases hx
    cases he

theorem raising_handed (policy : RetryPolicy) (d : Delivery) :
    Handed (retrySpec policy) [] d raising where
  attempt := raising_attempt policy d
  handsOff := ⟨rfl, by simp [raising]⟩
  finite := finite_of_default rfl (by simp [environments, raising])

/-- A retry of a delivery that was not retried before. -/
theorem asking_copied (policy : RetryPolicy) (hmax : 0 < policy.maxRetries) :
    settlements (final (retrySpec policy) [] plainDelivery (asking (.ok ()))).log = [.ack] ∧
      copies (final (retrySpec policy) [] plainDelivery (asking (.ok ()))).log =
        [retryCopy (retrySpec policy) plainDelivery
          (workHeaders [] plainDelivery (asking (.ok ()))) 0 5 none {}] :=
  asked_copied rfl (asking_attempt policy plainDelivery (.ok ())) rfl hmax rfl rfl rfl asked_time

/-- The first two copies of `plainDelivery`. -/
def firstCopy : DelayedMessageData :=
  retryCopy (retrySpec {}) plainDelivery
    (workHeaders [] plainDelivery (asking (.ok ()))) 0 5 none {}

def secondCopy : DelayedMessageData :=
  retryCopy (retrySpec {}) (dispatched firstCopy)
    (workHeaders [] (dispatched firstCopy) (asking (.ok ()))) 1 5 none {}

/-- The JSON text of a copy of `plainDelivery` with the given count. -/
def copyJson (count : String) : Bytes :=
  ("\x7b\"message_topic\":\"task.topic\",\"idempotency_key\":null,\"dispatch_time\":5," ++
    "\"payload\":\"\x7b\x7d\",\"headers\":\x7b\"x-retry-count\":" ++ count ++
    "\x7d,\"target_queue\":\"task.topic.Task.run\",\"message_id\":\"id\",\"content_type\":null," ++
    "\"payload_policy\":\"ignore\",\"time_policy\":\"replace\"," ++
    "\"content_encoding\":null\x7d").toUTF8.toList

theorem copyJson_injective : Function.Injective copyJson := by
  intro count count' h
  have htext := DelayedStore.utf8_injective h
  simpa only [String.append_left_inj, String.append_right_inj] using htext

theorem copyJson_ne : copyJson "2" ≠ copyJson "1" := copyJson_injective.ne (by decide)

theorem secondCopy_ne : secondCopy ≠ firstCopy := by
  intro h
  have hcount : (secondCopy.headers.getD Headers.empty) xRetryCount =
      (firstCopy.headers.getD Headers.empty) xRetryCount := by rw [h]
  have hints : some (HeaderValue.int 2) = some (HeaderValue.int 1) := hcount
  cases hints

open Classical in
/-- Pydantic on these two copies. -/
noncomputable def copyCodec : Codec where
  dump m :=
    if m = firstCopy then .ok (copyJson "1")
    else if m = secondCopy then .ok (copyJson "2")
    else .error (.error "PydanticSerializationError"
      "invalid utf-8 sequence of 1 bytes from index 0")
  load b :=
    if b = copyJson "1" then some firstCopy
    else if b = copyJson "2" then some secondCopy
    else none

theorem copyCodec_dump {m : DelayedMessageData} {b : Bytes} (h : copyCodec.dump m = .ok b) :
    copyCodec.load b = some m := by
  simp only [copyCodec] at h ⊢
  split at h
  · next hm =>
    cases h
    rw [if_pos rfl, hm]
  · split at h
    · next hm =>
      cases h
      rw [if_neg copyJson_ne, if_pos rfl, hm]
    · cases h

theorem copyCodec_lossless : Lossless copyCodec where
  faithful m b m' hdump hload := by
    rw [copyCodec_dump hdump, Option.some.injEq] at hload
    exact hload.symm
  reads m b h hdump _ _ := copyCodec_dump hdump

theorem copyCodec_first : copyCodec.dump firstCopy = .ok (copyJson "1") := if_pos rfl
theorem copyCodec_second : copyCodec.dump secondCopy = .ok (copyJson "2") :=
  (if_neg secondCopy_ne).trans (if_pos rfl)

theorem plainDelivery_fresh : Fresh plainDelivery where
  count := rfl
  headers := fun k v hv => by cases hv
  contentType := by decide
  contentEncoding := by decide

theorem five_storable : Storable 5 := DelayedStore.storable_small (by norm_num)

/-- The first execution asks for a retry, and its copy comes round. -/
theorem first_round (policy : RetryPolicy) (hmax : 0 < policy.maxRetries) :
    ∃ s, Reachable (retrySpec policy)
    [] copyCodec 1 (Regular (retrySpec policy) []) plainDelivery s ∧
      s.queue = [dispatched firstCopy] ∧ s.waiting = [] ∧ s.history.length = 1 := by
  obtain ⟨hset, hcop⟩ := asking_copied policy hmax
  obtain ⟨s, hrun, hqueue, hwaiting, hhistory⟩ := retry_round copyCodec 1 (s := start plainDelivery)
    rfl rfl (asking_regular policy plainDelivery) hset hcop rfl five_storable rfl copyCodec_first
    (copyCodec_dump copyCodec_first) (le_refl 1)
  exact ⟨s, hrun, hqueue, hwaiting, by rw [hhistory]; rfl⟩

/-- A budget of one retry. -/
def oneRetry : RetryPolicy := { maxRetries := 1 }

theorem oneRetry_configured : Configured (retrySpec oneRetry) [] where
  name := by decide
  budget := by decide
  provides := by simp

/-- A message that fails twice under a budget of one retry. -/
theorem fails_twice : ∃ s,
    Reachable (retrySpec oneRetry)
    [] copyCodec 1 (Regular (retrySpec oneRetry) []) plainDelivery s ∧
      s.history.length = 2 := by
  obtain ⟨s, hrun, hqueue, -, hlength⟩ := first_round oneRetry (by decide)
  refine ⟨_, hrun.tail (Step.alone hqueue (asking_regular oneRetry _) rfl rfl), ?_⟩
  simp [hlength]

/-- A handler that asks for one retry and fails. -/
theorem budget_kept_twice : ∃ s,
    Reachable (retrySpec oneRetry)
    [] copyCodec 1 (Regular (retrySpec oneRetry) []) plainDelivery s ∧
      s.history.length = 2 ∧ BudgetKept (retrySpec oneRetry) copyCodec 1 plainDelivery s := by
  obtain ⟨s, hrun, hlength⟩ := fails_twice
  exact ⟨s, hrun, hlength,
    budget_kept oneRetry_configured plainDelivery_fresh copyCodec_lossless hrun⟩

/-- Its two executions. -/
theorem executions_bounded_twice : ∃ s,
    Reachable (retrySpec oneRetry)
    [] copyCodec 1 (Retrying (retrySpec oneRetry) []) plainDelivery s ∧
      s.history.length = 2 ∧
      (s.history.length : Int) ≤ (retrySpec oneRetry).retryPolicy.maxRetries + 1 := by
  obtain ⟨s, hrun, hlength⟩ := fails_twice
  have hretrying : Reachable (retrySpec oneRetry) [] copyCodec 1 (Retrying (retrySpec oneRetry) [])
      plainDelivery s :=
    Relation.ReflTransGen.mono (fun _ _ hstep => hstep.mono fun _ _ h => ⟨h.attempt, h.handsOff⟩)
      _ _ hrun
  have hcount : ∀ n₀, getRetryCount plainDelivery.headers = some n₀ → 0 ≤ n₀ := by
    intro n₀ hn₀
    cases hn₀
    decide
  exact ⟨s, hretrying, hlength, executions_bounded copyCodec_lossless oneRetry_configured.name
    oneRetry_configured.budget hcount hretrying⟩

/-- Three retries, with a factor whose square is no float. -/
def steep : RetryPolicy := { maxRetries := 3, backoffFactor := 10 ^ 200 }

theorem second_copied :
    settlements (final (retrySpec steep) [] (dispatched firstCopy) (asking (.ok ()))).log = [.ack] ∧
      copies (final (retrySpec steep) [] (dispatched firstCopy) (asking (.ok ()))).log =
        [secondCopy] :=
  asked_copied (n := 1) rfl (asking_attempt steep _ (.ok ())) rfl (by decide) rfl rfl rfl asked_time

theorem steep_stuck :
    settlements (final (retrySpec steep) [] (dispatched secondCopy) raising).log = [] ∧
    copies (final (retrySpec steep) [] (dispatched secondCopy) raising).log = [] := by
  have hnone : (copies (final (retrySpec steep) [] (dispatched secondCopy) raising).log).length =
      0 := by
    decide +kernel
  exact ⟨by decide +kernel, List.length_eq_zero_iff.mp hnone⟩

/-- Two retries asked for and then an exception: the backoff overflows, and the third
delivery of the message is never settled. -/
theorem backoff_overflow_unsettled :
    Fresh plainDelivery ∧ 0 ≤ (retrySpec steep).retryPolicy.maxRetries ∧
    ∃ s, Reachable (retrySpec steep) [] copyCodec 1 (Handed (retrySpec steep) []) plainDelivery s ∧
      ¬∀ r ∈ s.history, r.settled.length = 1 := by
  obtain ⟨s₁, hrun₁, hqueue₁, hwaiting₁, -⟩ := first_round steep (by decide)
  obtain ⟨hset₁, hcop₁⟩ := second_copied
  obtain ⟨s₂, hrun₂, hqueue₂, -, -⟩ := retry_round copyCodec 1 hqueue₁ hwaiting₁
    (asking_regular steep _) hset₁ hcop₁ rfl five_storable rfl copyCodec_second
    (copyCodec_dump copyCodec_second) (le_refl 1)
  have hrun : Reachable (retrySpec steep)
    [] copyCodec 1 (Handed (retrySpec steep) []) plainDelivery s₂ :=
    Relation.ReflTransGen.mono (fun _ _ hstep => hstep.mono fun _ _ h => h.toHanded) _ _
      (hrun₁.trans hrun₂)
  obtain ⟨hset, hcop⟩ := steep_stuck
  refine ⟨plainDelivery_fresh, by decide, _, hrun.tail
    (Step.alone hqueue₂ (raising_handed steep _) hset hcop), ?_⟩
  intro hall
  have hone := hall (record (retrySpec steep) [] (dispatched secondCopy) raising) (by simp)
  rw [record, hset] at hone
  cases hone

/-- The executions of a handler that never succeeds. -/
def Failing (spec : HandlerSpec) (d : Delivery) (x : Execution) : Prop :=
  Attempt spec [] d x ∧ x.ending ≠ .returned

/-- A delivery whose body is no text. -/
def binaryDelivery : Delivery := { plainDelivery with body := [0xff] }

/-- The backend cannot write the copy of a binary body. -/
def refusal : PyExc :=
  .error "PydanticSerializationError" "invalid utf-8 sequence of 1 bytes from index 0"

/-- A binary message that always asks for a retry: the copy has no JSON form, the delivery is
requeued each time, and a budget of one retry allows a third execution. -/
theorem binary_body_loops :
    (∀ m : DelayedMessageData, m.payload = binaryDelivery.body →
      copyCodec.dump m = .error refusal) ∧
    ∃ s, Reachable (retrySpec oneRetry)
    [] copyCodec 1 (Failing (retrySpec oneRetry)) binaryDelivery s ∧
      ¬(s.history.length : Int) ≤ (retrySpec oneRetry).retryPolicy.maxRetries + 1 := by
  constructor
  · intro m hm
    have hfirst : m ≠ firstCopy := by
      rintro rfl
      cases hm
    have hsecond : m ≠ secondCopy := by
      rintro rfl
      cases hm
    exact (if_neg hfirst).trans (if_neg hsecond)
  · have hattempt := asking_attempt oneRetry binaryDelivery (.error refusal)
    have hrefused : HandOffFails (retrySpec oneRetry) 0 (asking (.error refusal)) :=
      .askedRefused _ rfl _ rfl (by decide) refusal rfl rfl
    obtain ⟨s, hrun, hlength⟩ : ∃ s, Reachable (retrySpec oneRetry) [] copyCodec 1
        (Failing (retrySpec oneRetry)) binaryDelivery s ∧ s.history.length = 3 :=
      executions_unbounded ⟨hattempt, by simp [asking]⟩ hattempt rfl hrefused 3
    refine ⟨s, hrun, ?_⟩
    rw [hlength]
    decide

end RetryBudget

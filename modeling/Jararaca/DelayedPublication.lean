import Jararaca.DelayedCodec
import Jararaca.DelayedDispatch
import Jararaca.SchedulingTimes
import Jararaca.TopicRouting

/-!
# Delayed and immediate publication

The two ways of a message to the broker: `_publish` of `AIOPikaMessagePublisher`, and a delay
that is staged, flushed into the store, claimed by a beat worker and published by
`dispatch_delayed_message`. What the first says to the exchange explicitly the second leaves
to the defaults of aio-pika.
-/
namespace DelayedPublication

open Programs Messages SortedSets Interceptors DelayedStore DelayedCodec SchedulingTimes
open RetryLineage (truthy)

inductive DeliveryMode where
  | notPersistent | persistent
  deriving DecidableEq, Repr

/-- What is published: an `aio_pika.Message`, the exchange by name (the default one has none),
the routing key and the mandatory flag. The defaults are those of aio-pika. -/
structure AmqpPublication where
  exchange : String
  routingKey : String
  body : Bytes
  headers : Headers := Headers.empty
  messageId : Option String := none
  contentType : Option String := none
  contentEncoding : Option String := none
  deliveryMode : DeliveryMode := .notPersistent
  mandatory : Bool := true

/-- `_publish`, with the headers of its span. -/
def publish (exchangeName : String) (implicit : Headers) (span : PublishSpan) (m : BusMessage) :
    AmqpPublication where
  exchange := exchangeName
  routingKey := genRoutingKey m.topic
  body := m.body
  headers := traceMessagePublish implicit span
  deliveryMode := .persistent
  mandatory := m.isTask

/-- `dispatch_delayed_message`, where `exchange` is the one of the beat worker. -/
def dispatchDelayedMessage (exchange : String) (d : DelayedMessageData) : AmqpPublication where
  exchange := match truthy d.targetQueue with
    | some _ => ""
    | none => exchange
  routingKey := match truthy d.targetQueue with
    | some queue => queue
    | none => d.messageTopic ++ ".#"
  body := d.payload
  headers := d.headers.getD Headers.empty
  messageId := truthy d.messageId
  contentType := truthy d.contentType
  contentEncoding := truthy d.contentEncoding

/-- What one round of the beat worker publishes. -/
def dispatched (codec : Codec) (exchange : String) (startTimestamp : Int) (batchSize : Nat)
    (s : Store) :
    List AmqpPublication :=
  (dequeueNextDelayedMessages codec startTimestamp batchSize s).1.map
    (dispatchDelayedMessage exchange)

/-- The publisher that takes the call: the direct one, or the collector that is replayed into it. -/
inductive Via where
  | direct | collector
  deriving DecidableEq, Repr

/-- What the call stages; nothing where a datetime on the way is out of range. -/
def staged (z : PublisherModes.LocalZone) : Via → SchedulingCall → Option DelayedMessageData
  | .direct, call => SchedulingTimes.direct z call
  | .collector, call => replayed z call

def message : SchedulingCall → BusMessage
  | .delay m _ _ _ => m
  | .schedule m _ _ _ => m

/-- The headers of the flush, without the None values. -/
def captured (implicit : Headers) (span : PublishSpan) : Headers := fun k =>
  (traceMessagePublish implicit span k).filter (· != .other "None")

/-- A delayed publication is as the immediate one, with the headers of the flush. -/
structure Agrees (immediate delayed : AmqpPublication) (headers : Headers) : Prop where
  body : delayed.body = immediate.body
  exchange : delayed.exchange = immediate.exchange
  routingKey : delayed.routingKey = immediate.routingKey
  deliveryMode : delayed.deliveryMode = immediate.deliveryMode
  mandatory : delayed.mandatory = immediate.mandatory
  headers : delayed.headers = headers

theorem scheduleDirect_eq {z : PublisherModes.LocalZone} {m : BusMessage} {when : DateTime}
    (timezone : TzInfo)
    {options : DelayOptions} {d : DelayedMessageData}
    (h : scheduleDirect z m when timezone options = some d) :
    ∃ instant options, d = PublisherModes.delayedData m instant options := by
  obtain ⟨instant, -, rfl⟩ := Option.map_eq_some_iff.mp h
  exact ⟨instant, options, rfl⟩

/-- Whatever the call, what is staged is the delayed form of its message. -/
theorem staged_eq {z : PublisherModes.LocalZone} {via : Via} {call : SchedulingCall}
    {d : DelayedMessageData}
    (h : staged z via call = some d) :
    ∃ instant options, d = PublisherModes.delayedData (message call) instant options := by
  cases via with
  | direct =>
    cases call with
    | delay m seconds instant options =>
      rw [staged, direct_delay] at h
      obtain ⟨when, -, h⟩ := Option.bind_eq_some_iff.mp h
      exact scheduleDirect_eq utc h
    | schedule m when timezone options => exact scheduleDirect_eq timezone h
  | collector =>
    obtain ⟨data, hdata, h⟩ := Option.bind_eq_some_iff.mp h
    have hmessage : data.message = message call := by
      cases call with
      | delay m seconds instant options =>
        simp only [collect, bind, pure, Option.bind_eq_some_iff, Option.some_inj] at hdata
        obtain ⟨-, -, -, -, rfl⟩ := hdata
        rfl
      | schedule m when timezone options =>
        cases hdata
        rfl
    rw [← hmessage]
    exact scheduleDirect_eq data.timezone h

/-- What a flushed message is published with in the end. -/
theorem dispatch_flushed (exchange : String) {z : PublisherModes.LocalZone} {via : Via}
    {call : SchedulingCall}
    {d : DelayedMessageData} (hstaged : staged z via call = some d) (implicit : Headers)
    (span : PublishSpan) :
    dispatchDelayedMessage exchange (withPublishHeaders implicit span d) =
      { exchange := exchange
        routingKey := genRoutingKey (message call).topic
        body := (message call).body
        headers := captured implicit span
        deliveryMode := .notPersistent
        mandatory := true } := by
  obtain ⟨instant, options, rfl⟩ := staged_eq hstaged
  have hheaders : Headers.empty.merge (captured implicit span) = captured implicit span := by
    funext k
    rw [Headers.merge_apply, Headers.empty, Option.or_none]
  exact congrArg (fun h : Headers =>
    ({ exchange := exchange, routingKey := _, body := _, headers := h } :
    AmqpPublication)) hheaders

/-- What a round makes of a claimed task id is published. -/
theorem mem_dispatched {codec : Codec} {s : Store} {startTimestamp : Int} {batchSize : Nat}
    {id : String}
    {d : DelayedMessageData} (exchange : String)
    (hclaimed : id ∈ (selected s startTimestamp batchSize).map member)
    (hload : claimed codec s id = some d) :
    dispatchDelayedMessage exchange d ∈ dispatched codec exchange startTimestamp batchSize s := by
  unfold dispatched
  rw [dequeue_claimed]
  exact List.mem_map_of_mem (List.mem_filterMap.mpr ⟨id, hclaimed, hload⟩)

theorem dispatched_notPersistent {codec : Codec} {exchange : String} {startTimestamp : Int}
    {batchSize : Nat}
    {s : Store} {p : AmqpPublication}
    (hp : p ∈ dispatched codec exchange startTimestamp batchSize s) :
    p.deliveryMode = .notPersistent ∧ p.mandatory = true := by
  obtain ⟨d, -, rfl⟩ := List.mem_map.mp hp
  exact ⟨rfl, rfl⟩

/-- No publication of a beat worker is as durable as an immediate one. -/
theorem not_agrees {codec : Codec} {beatExchange : String} {startTimestamp : Int}
    {batchSize : Nat} {s : Store}
    {p : AmqpPublication} (hp : p ∈ dispatched codec beatExchange startTimestamp batchSize s)
    (exchangeName : String) (implicit headers : Headers) (span : PublishSpan) (m : BusMessage) :
    ¬Agrees (publish exchangeName implicit span m) p headers := by
  intro hagrees
  have hmode := hagrees.deliveryMode
  rw [(dispatched_notPersistent hp).1] at hmode
  cases hmode

/-- The store after the flush enqueued the message of a call and other steps followed. -/
def storeAfter (codec : Codec) (before : List Op) (d : DelayedMessageData) (uuid : String)
    (later : List Op) : Store :=
  (run codec later (enqueueDelayedMessage codec d uuid (run codec before Store.empty).2).2).2

/-- A delayed message from its call to the broker: whenever its payload goes into the store and
is claimed there, the beat worker publishes the body of the message to the routing key of the
message with the headers of the flush, but never as an immediate publication is: it is not
persistent, and mandatory also where the message is no task. -/
theorem delayed_publication_differs (codec : Codec) (before later : List Op)
    (z : PublisherModes.LocalZone) (via : Via)
    (call : SchedulingCall) (implicit : Headers) (span : PublishSpan) (uuid : String)
    (d : DelayedMessageData) (hstaged : (staged z via call).map
      (withPublishHeaders implicit span) = some d)
    (haccepted : Accepted codec d)
    (hload : ∀ payload, codec.dump d = .ok payload → codec.load payload = some d)
    (hstored : Stored (run codec before Store.empty).2 d uuid)
    (hlater : ∀ op ∈ later, op.taskId? ≠ some (taskId d uuid)) (startTimestamp : Int)
    (batchSize : Nat)
    (hclaimed : taskId d uuid ∈
      (selected (storeAfter codec before d uuid later) startTimestamp batchSize).map member)
    (exchangeName beatExchange : String) :
    ∃ p ∈ dispatched codec beatExchange startTimestamp batchSize
      (storeAfter codec before d uuid later),
      let immediate := publish exchangeName implicit span (message call)
      p.body = immediate.body ∧ p.routingKey = immediate.routingKey ∧
        p.headers = captured implicit span ∧
        (p.exchange = immediate.exchange ↔ beatExchange = exchangeName) ∧
        (p.mandatory = immediate.mandatory ↔ (message call).isTask = true) ∧
        p.deliveryMode ≠ immediate.deliveryMode ∧ ¬Agrees immediate p (captured implicit span) := by
  obtain ⟨data, hdata, rfl⟩ := Option.map_eq_some_iff.mp hstaged
  obtain ⟨⟨payload, hdump⟩, hfits⟩ := (accepted_iff codec).mp haccepted
  have hread := claimed_eq_load hdump hfits hstored hlater hclaimed
  have hmem := mem_dispatched beatExchange hclaimed (hread.trans (hload payload hdump))
  refine ⟨_, hmem, ?_⟩
  have hnot := not_agrees hmem exchangeName implicit (captured implicit span) span (message call)
  rw [dispatch_flushed beatExchange hdata] at hnot ⊢
  refine ⟨rfl, rfl, rfl, Iff.rfl, eq_comm, ?_, hnot⟩
  intro hmode
  cases hmode

section Example

open DelayedDispatch (json jsonCodec jsonCodec_load enqueue_empty)
open Doubles (nearestInt nearestInt_eq)

/-- A task that is delayed by ten seconds on a UTC host. -/
def welcome : SchedulingCall := .delay ⟨"user.welcome", [], true⟩ 10 0 {}

def welcomeData : DelayedMessageData :=
  withPublishHeaders Headers.empty .off
    (PublisherModes.delayedData ⟨"user.welcome", [], true⟩ (10 : Int) {})

theorem welcome_staged :
    (staged utcHost .direct welcome).map (withPublishHeaders Headers.empty .off) =
      some welcomeData := by
  have htime : timestamp utcHost ⟨10000000, false, none, by decide⟩ =
      some ((10 : Int) : ℚ) := by decide +kernel
  have hwhen : ((now utcHost 0).bind fun w => w.plus 10) =
      some ⟨10000000, false, none, by decide⟩ := rfl
  rw [staged, welcome, direct_delay, hwhen, Option.bind_some, scheduleDirect, htime]
  rfl

theorem welcome_time : welcomeData.dispatchTime = 10 := truncate_intCast 10

theorem welcome_small : |welcomeData.dispatchTime| ≤ 2 ^ 53 := by
  rw [welcome_time]
  decide

theorem welcome_accepted : Accepted (jsonCodec [welcomeData]) welcomeData :=
  (accepted_iff _).mpr ⟨⟨json welcomeData, rfl⟩, storable_small welcome_small⟩

theorem welcome_load (payload : Bytes)
    (hdump : (jsonCodec [welcomeData]).dump welcomeData = .ok payload) :
    (jsonCodec [welcomeData]).load payload = some welcomeData := by
  cases hdump
  have hnodup : ([welcomeData].map json).Nodup := List.nodup_singleton (json welcomeData)
  exact jsonCodec_load hnodup (List.mem_singleton_self welcomeData)

theorem welcome_claimed : taskId welcomeData "u" ∈
    (selected (storeAfter (jsonCodec [welcomeData]) [] welcomeData "u" [])
      welcomeData.dispatchTime 1).map member := by
  have hdump : (jsonCodec [welcomeData]).dump welcomeData = .ok (json welcomeData) := rfl
  have hentries := enqueue_empty hdump welcome_small "u" (s := Store.empty) rfl
  change taskId welcomeData "u" ∈
    (selected (enqueueDelayedMessage (jsonCodec [welcomeData]) welcomeData "u" Store.empty).2
      _ 1).map member
  rw [selected_single hentries, if_pos ⟨(nearestInt_eq welcome_small).ge, le_refl 1⟩]
  exact List.mem_singleton_self _

theorem welcome_dispatched : dispatchDelayedMessage "jararaca_ex" welcomeData ∈
    dispatched (jsonCodec [welcomeData]) "jararaca_ex" welcomeData.dispatchTime 1
      (storeAfter (jsonCodec [welcomeData]) [] welcomeData "u" []) := by
  have hdump : (jsonCodec [welcomeData]).dump welcomeData = .ok (json welcomeData) := rfl
  have hread :=
    claimed_eq_load hdump (storable_small welcome_small)
    (by simp [Stored, run, Store.empty]) (by simp)
    welcome_claimed
  exact mem_dispatched "jararaca_ex" welcome_claimed (hread.trans (welcome_load _ rfl))

/-- The welcome task is published at once as persistent, and by the beat worker as not
persistent. -/
theorem welcome_not_durable :
    ∃ p ∈ dispatched (jsonCodec [welcomeData]) "jararaca_ex" welcomeData.dispatchTime 1
      (storeAfter (jsonCodec [welcomeData]) [] welcomeData "u" []),
    p.body = [] ∧ p.deliveryMode = .notPersistent ∧
      (publish "jararaca_ex" Headers.empty .off (message welcome)).deliveryMode = .persistent ∧
        ¬Agrees (publish "jararaca_ex" Headers.empty .off (message welcome)) p
          (captured Headers.empty .off) :=
  ⟨_, welcome_dispatched, rfl, rfl, rfl, not_agrees welcome_dispatched _ _ _ _ _⟩

/-- A greeting sent later has lost its delivery mode. -/
theorem welcome_differs :
    ∃ p ∈ dispatched (jsonCodec [welcomeData]) "jararaca_ex" welcomeData.dispatchTime 1
      (storeAfter (jsonCodec [welcomeData]) [] welcomeData "u" []),
    p.routingKey = "user.welcome.#" ∧ p.deliveryMode ≠ .persistent := by
  obtain ⟨p, hp, -, hkey, -, -, -, hmode, -⟩ :=
    delayed_publication_differs (jsonCodec [welcomeData]) [] [] utcHost
    .direct welcome Headers.empty .off "u" welcomeData welcome_staged welcome_accepted welcome_load
    (by simp [Stored, run, Store.empty])
      (by simp) welcomeData.dispatchTime 1 welcome_claimed "jararaca_ex"
    "jararaca_ex"
  exact ⟨p, hp, hkey, hmode⟩

end Example

end DelayedPublication

import Mathlib.Logic.Relation
import Jararaca.DeadLetters
import Jararaca.ForcedInfrastructure
import Jararaca.TopicRouting

/-!
# Where dead letters go

A message that a worker rejects is dead-lettered with the routing key of the dead letter exchange.
`dlq requeue` publishes it to the exchange of the application under the key that it has then, and
that is no longer the one of its topic.
-/
namespace DeadLetterRouting

open Brokers Infrastructure DeadLetters
open Controllers (PyClass)
open Interceptors (genRoutingKey)
open TopicRouting (topicMatch words readWord Plain)
open TopicPatterns (accepts)

/-- A message in a queue, and whether it has the header `x-requeued-from-dlq`. -/
structure Stored where
  raw : RawMessage
  requeued : Bool
  deriving DecidableEq

/-- The broker, and the copies that wait for the queue they are addressed to. -/
structure System where
  broker : Broker Stored
  delayed : List (String × Stored) := []

def System.withBroker (s : System) (b : Broker Stored) : System := { s with broker := b }

/-- The exchange and the routing key that a queue dead-letters with. -/
def deadLetterTarget (args : QueueArgs) : Option (String × String) :=
  match args.arguments.lookup "x-dead-letter-exchange",
    args.arguments.lookup "x-dead-letter-routing-key" with
  | some (.str exchange), some (.str routingKey) => some (exchange, routingKey)
  | _, _ => none

/-- How an exchange compares the key of a binding with that of a message. -/
def ExchangeType.accepts : ExchangeType → String → String → Bool
  | .topic, key, binding => topicMatch binding key
  | .direct, key, binding => binding == key

def publish (b : Broker Stored) (exchange key : String) (m : Stored) : Broker Stored :=
  match b.exchange exchange with
  | none => b
  | some x => b.deliverTo (b.routed (ExchangeType.accepts x.type key) exchange) m

/-- The broker adds the death to the message, and the key of the queue replaces its own. -/
def deadLetter (b : Broker Stored) (name : String) (args : QueueArgs) (m : Stored) :
    Broker Stored :=
  match deadLetterTarget args with
  | none => b
  | some (exchange, key) =>
    let death : Death := ⟨some name, some "rejected", some (.number 1), none⟩
    let raw := { m.raw with
      routingKey := some key, xDeath := some (.table death :: (m.raw.xDeath.getD [])) }
    publish b exchange key { m with raw := raw }

/-- What `dlq requeue` publishes, as it is stored. -/
def requeuedMessage (raw : RawMessage) : Stored :=
  let p := requeuePublication raw
  ⟨⟨p.body, some p.routingKey, none, none, p.contentType⟩, true⟩

variable (e : Flags) (app : List PyClass)

/-- Steps of publishers, of workers on the queues of the application, of the beat worker, which
sends a retry copy to its target queue, and of the commands on the dead letter queue. -/
inductive Step : System → System → Prop where
  | publish (s : System) (topic : String) (raw : RawMessage) :
      Step s (s.withBroker (publish s.broker e.exchange (genRoutingKey topic) ⟨raw, false⟩))
  | settle (s : System) (q : QueueDeclaration) (hq : q ∈ declarations app)
      (before after : List Stored) (m : Stored)
      (h : s.broker.messages q.queueName = before ++ m :: after) :
      Step s (s.withBroker (s.broker.setMessages q.queueName (before ++ after)))
  | retry (s : System) (q : QueueDeclaration) (hq : q ∈ declarations app)
      (before after : List Stored) (m : Stored)
      (h : s.broker.messages q.queueName = before ++ m :: after) (raw : RawMessage) :
      Step s { broker := s.broker.setMessages q.queueName (before ++ after)
               delayed := s.delayed ++ [(q.queueName, { m with raw := raw })] }
  | dispatch (s : System) (before after : List (String × Stored)) (name : String) (m : Stored)
      (h : s.delayed = before ++ (name, m) :: after) :
      Step s { broker := s.broker.deliverTo (fun k => k == name) m, delayed := before ++ after }
  | reject (s : System) (q : QueueDeclaration) (hq : q ∈ declarations app)
      (before after : List Stored) (m : Stored)
      (h : s.broker.messages q.queueName = before ++ m :: after) :
      Step s (s.withBroker
        (deadLetter (s.broker.setMessages q.queueName (before ++ after)) q.queueName q.args m))
  | requeue (s : System) (before after : List Stored) (m : Stored) (acked : Bool)
      (h : s.broker.messages deadLetterQueue = before ++ m :: after) :
      Step s (s.withBroker
        (publish (if acked then s.broker.setMessages deadLetterQueue
          (before ++ after) else s.broker) e.exchange
          (requeuePublication m.raw).routingKey (requeuedMessage m.raw)))
  | purge (s : System) : Step s (s.withBroker (s.broker.setMessages deadLetterQueue []))

/-- After `declare`, before any message. -/
structure Fresh (s : System) : Prop where
  complete : Complete e (declarations app) s.broker
  only : ∀ b ∈ s.broker.bindings, b = dlBinding ∨ ∃ q ∈ declarations app, b = q.binding e
  empty : ∀ name, s.broker.messages name = []
  delayed : s.delayed = []

def Reachable (s : System) : Prop := ∃ s₀, Fresh e app s₀ ∧ Relation.ReflTransGen (Step e app) s₀ s

/-- A queue that the application declared with a binding that accepts the key of dead letters. -/
def TakesDeadLetters (name : String) : Prop :=
  ∃ q ∈ declarations app, q.queueName = name ∧ topicMatch q.routingKey deadLetterExchange = true

/-! ## The key of dead letters -/

theorem words_deadLetterExchange : words deadLetterExchange = [['d', 'l', 'x']] := by decide

theorem words_injective {a b : String} (h : words a = words b) : a = b := by
  have hjoin := congrArg (List.intercalate ['.']) h
  rw [words, words, List.intercalate_splitOn, List.intercalate_splitOn] at hjoin
  exact String.toList_inj.mp hjoin

/-- A key without wildcards accepts itself only. -/
theorem topicMatch_plain {key : String} (h : Plain key) :
    topicMatch key deadLetterExchange = true ↔ key = deadLetterExchange := by
  rw [topicMatch, TopicRouting.map_readWord h.1 h.2, TopicPatterns.accepts_lits]
  exact ⟨fun heq => (words_injective heq).symm, fun heq => heq ▸ rfl⟩

/-- The queue of a handler accepts the key of dead letters where that is its topic. -/
theorem topicMatch_handler {topic : String} (h : Plain topic) :
    topicMatch (genRoutingKey topic) deadLetterExchange = true ↔ topic = deadLetterExchange := by
  have hhash : readWord ['#'] = .hash := by decide
  rw [topicMatch, TopicRouting.words_genRoutingKey, List.map_append, List.map_singleton, hhash,
    TopicPatterns.accepts_concat_hash, TopicRouting.map_readWord h.1 h.2]
  simp only [TopicPatterns.accepts_lits, exists_eq_right]
  constructor
  · intro hprefix
    rw [words_deadLetterExchange, List.prefix_cons_iff] at hprefix
    obtain hnil | ⟨rest, hcons, hrest⟩ := hprefix
    · exact absurd hnil (List.splitOn_ne_nil _ _)
    · rw [List.prefix_nil.mp hrest, ← words_deadLetterExchange] at hcons
      exact words_injective hcons
  · rintro rfl
    exact List.prefix_refl _

/-! ## What holds in every reachable state -/

/-- The exchanges, queues and bindings that `declare` left. -/
structure Topology (b : Broker Stored) : Prop where
  main : b.exchange e.exchange = some mainExchangeArgs
  dlx : b.exchange deadLetterExchange = some dlExchangeArgs
  ne : e.exchange ≠ deadLetterExchange
  only : ∀ x ∈ b.bindings, x = dlBinding ∨ ∃ q ∈ declarations app, x = q.binding e
  names : ∀ q ∈ declarations app, q.queueName ≠ deadLetterQueue

/-- Dead letters have the key of the dead letter exchange, and what was requeued is in queues that
accept this key, or on its way to one. -/
structure Astray (s : System) : Prop where
  topology : Topology e app s.broker
  dead : ∀ m ∈ s.broker.messages deadLetterQueue, m.raw.routingKey = some deadLetterExchange
  marked : ∀ name, name ≠ deadLetterQueue → ∀ m ∈ s.broker.messages name, m.requeued = true →
    TakesDeadLetters app name
  delayed : ∀ x ∈ s.delayed, x.1 ≠ deadLetterQueue ∧
    (x.2.requeued = true → TakesDeadLetters app x.1)

variable {e app} {b : Broker Stored}

theorem Topology.deliverTo (h : Topology e app b) (wanted : String → Bool) (m : Stored) :
    Topology e app (b.deliverTo wanted m) := ⟨h.main, h.dlx, h.ne, h.only, h.names⟩

theorem Topology.setMessages (h : Topology e app b) (name : String) (l : List Stored) :
    Topology e app (b.setMessages name l) := ⟨h.main, h.dlx, h.ne, h.only, h.names⟩

theorem publish_main (h : Topology e app b) (key : String) (m : Stored) :
    publish b e.exchange key m =
    b.deliverTo (b.routed (fun binding => topicMatch binding key) e.exchange) m := by
  simp only [publish, h.main]
  rfl

theorem publish_dlx (h : Topology e app b) (key : String) (m : Stored) :
    publish b deadLetterExchange key m =
    b.deliverTo (b.routed (fun binding => binding == key) deadLetterExchange) m := by
  simp only [publish, h.dlx]
  rfl

/-- The exchange of the application leads to declared queues, where their key accepts. -/
theorem routed_main (h : Topology e app b) {key name : String}
    (hrouted : b.routed (fun binding => topicMatch binding key) e.exchange name = true) :
    ∃ q ∈ declarations app, q.queueName = name ∧ topicMatch q.routingKey key = true := by
  obtain ⟨x, hx, hexchange, hname, hmatch⟩ := Broker.routed_iff.mp hrouted
  obtain rfl | ⟨q, hq, rfl⟩ := h.only x hx
  · exact absurd hexchange.symm h.ne
  · exact ⟨q, hq, hname, hmatch⟩

/-- The dead letter exchange leads to the dead letter queue only. -/
theorem routed_dlx (h : Topology e app b) {key name : String}
    (hrouted : b.routed (fun binding => binding == key) deadLetterExchange name = true) :
    name = deadLetterQueue ∧ key = deadLetterExchange := by
  obtain ⟨x, hx, hexchange, hname, hkey⟩ := Broker.routed_iff.mp hrouted
  obtain rfl | ⟨q, hq, rfl⟩ := h.only x hx
  · exact ⟨hname.symm, (beq_iff_eq.mp hkey).symm⟩
  · exact absurd hexchange h.ne

/-- A message published to the exchange of the application does no harm where it is not marked or
has the key of dead letters. -/
theorem Astray.publish_main {s : System} (h : Astray e app s) (key : String) (m : Stored)
    (hm : m.requeued = true → key = deadLetterExchange) :
    Astray e app (s.withBroker (publish s.broker e.exchange key m)) := by
  have hpublish := DeadLetterRouting.publish_main h.topology key m
  refine ⟨hpublish ▸ h.topology.deliverTo _ m, ?_, ?_, h.delayed⟩
  · intro m' hm'
    rw [System.withBroker, hpublish] at hm'
    obtain hm' | ⟨hrouted, -⟩ := Broker.mem_deliverTo hm'
    · exact h.dead m' hm'
    · obtain ⟨q, hq, hname, -⟩ := routed_main h.topology hrouted
      exact absurd hname (h.topology.names q hq)
  · intro name hname m' hm' hmarked
    rw [System.withBroker, hpublish] at hm'
    obtain hm' | ⟨hrouted, rfl⟩ := Broker.mem_deliverTo hm'
    · exact h.marked name hname m' hm' hmarked
    · rw [hm hmarked] at hrouted
      exact routed_main h.topology hrouted

/-- Messages that are taken out of a queue. -/
theorem Astray.setMessages {s : System} (h : Astray e app s) (name : String) {l : List Stored}
    (hl : ∀ m ∈ l, m ∈ s.broker.messages name) :
    Astray e app (s.withBroker (s.broker.setMessages name l)) := by
  have hsub : ∀ k, ∀ m ∈ (s.broker.setMessages name l).messages k, m ∈ s.broker.messages k := by
    intro k m hm
    obtain ⟨hk, hm⟩ | hm := Broker.mem_setMessages hm
    · exact hk ▸ hl m hm
    · exact hm
  exact ⟨h.topology.setMessages name l, fun m hm => h.dead m (hsub _ m hm),
    fun k hk m hm => h.marked k hk m (hsub k m hm), h.delayed⟩

theorem mem_without {before after : List Stored} {m : Stored} {l : List Stored}
    (h : l = before ++ m :: after) :
    ∀ m' ∈ before ++ after, m' ∈ l := by
  intro m' hm'
  rw [h]
  obtain hm' | hm' := List.mem_append.mp hm'
  · exact List.mem_append_left _ hm'
  · exact List.mem_append_right _ (List.mem_cons_of_mem _ hm')

/-- The arguments of the two kinds of queues: dead letters go to the dead letter exchange. -/
theorem deadLetterTarget_args (q : QueueDeclaration) :
    deadLetterTarget q.args = none ∨
      deadLetterTarget q.args = some (deadLetterExchange, deadLetterExchange) := by
  unfold QueueDeclaration.args
  split
  · exact .inl (by decide)
  · exact .inr (by decide)

/-- Dead-lettering keeps the dead letters under the key of their exchange. -/
theorem Astray.deadLetter {s : System} (h : Astray e app s) (q : QueueDeclaration) (name : String)
    (m : Stored) :
    Astray e app (s.withBroker (deadLetter s.broker name q.args m)) := by
  unfold DeadLetterRouting.deadLetter
  obtain hnone | hsome := deadLetterTarget_args q
  · rw [hnone]
    exact h
  · rw [hsome]
    simp only
    rw [publish_dlx h.topology]
    refine ⟨h.topology.deliverTo _ _, ?_, ?_, h.delayed⟩
    · intro m' hm'
      obtain hm' | ⟨-, rfl⟩ := Broker.mem_deliverTo hm'
      · exact h.dead m' hm'
      · rfl
    · intro k hk m' hm' hmarked
      obtain hm' | ⟨hrouted, -⟩ := Broker.mem_deliverTo hm'
      · exact h.marked k hk m' hm' hmarked
      · exact absurd (routed_dlx h.topology hrouted).1 hk

/-- A message that came with the routing key of the dead letter exchange is published under it
again. -/
theorem requeuePublication_routingKey {raw : RawMessage}
    (h : raw.routingKey = some deadLetterExchange) :
    (requeuePublication raw).routingKey = deadLetterExchange := by
  simp only [requeuePublication, h]
  rfl

/-- Every step keeps it so. -/
theorem Astray.step {s t : System} (h : Astray e app s) (hstep : Step e app s t) :
    Astray e app t := by
  cases hstep with
  | publish topic raw => exact h.publish_main _ _ fun hm => absurd hm Bool.false_ne_true
  | settle q hq before after m hmessages => exact h.setMessages _ (mem_without hmessages)
  | retry q hq before after m hmessages raw =>
    have htaken := h.setMessages q.queueName (mem_without hmessages)
    refine ⟨htaken.topology, htaken.dead, htaken.marked, ?_⟩
    intro x hx
    obtain hx | hx := List.mem_append.mp hx
    · exact h.delayed x hx
    · rw [List.mem_singleton.mp hx]
      refine ⟨h.topology.names q hq, ?_⟩
      intro hmarked
      exact h.marked q.queueName (h.topology.names q hq) m (by rw [hmessages]; simp) hmarked
  | dispatch before after name m hdelayed =>
    have hm := h.delayed (name, m) (by rw [hdelayed]; simp)
    refine ⟨h.topology.deliverTo _ m, ?_, ?_, ?_⟩
    · intro m' hm'
      obtain hm' | ⟨hname, -⟩ := Broker.mem_deliverTo hm'
      · exact h.dead m' hm'
      · exact absurd (beq_iff_eq.mp hname).symm hm.1
    · intro k hk m' hm' hmarked
      obtain hm' | ⟨hname, rfl⟩ := Broker.mem_deliverTo hm'
      · exact h.marked k hk m' hm' hmarked
      · exact beq_iff_eq.mp hname ▸ hm.2 hmarked
    · intro x hx
      refine h.delayed x ?_
      rw [hdelayed]
      obtain hx | hx := List.mem_append.mp hx
      · exact List.mem_append_left _ hx
      · exact List.mem_append_right _ (List.mem_cons_of_mem _ hx)
  | reject q hq before after m hmessages =>
    exact (h.setMessages q.queueName (mem_without hmessages)).deadLetter q q.queueName m
  | requeue before after m acked hmessages =>
    have hkey := requeuePublication_routingKey (h.dead m (by rw [hmessages]; simp))
    cases acked with
    | false => exact h.publish_main _ _ fun _ => hkey
    | true =>
      exact (h.setMessages deadLetterQueue (mem_without hmessages)).publish_main _ _ fun _ => hkey
  | purge => exact h.setMessages deadLetterQueue fun m hm => absurd hm List.not_mem_nil

/-- In a fresh system nothing has been dead-lettered. -/
theorem Fresh.astray {s : System} (h : Fresh e app s) : Astray e app s := by
  refine ⟨⟨h.complete.shared.main, h.complete.shared.dlx, h.complete.shared.ne, h.only,
    fun q hq => h.complete.name_ne hq⟩, ?_, ?_, ?_⟩
  · intro m hm
    rw [h.empty] at hm
    exact absurd hm List.not_mem_nil
  · intro name _ m hm
    rw [h.empty] at hm
    exact absurd hm List.not_mem_nil
  · intro x hx
    rw [h.delayed] at hx
    exact absurd hx List.not_mem_nil

/-- In every reachable system the dead letters carry the routing key of the dead letter exchange. -/
theorem Reachable.astray {s : System} (h : Reachable e app s) : Astray e app s := by
  obtain ⟨s₀, hfresh, hrun⟩ := h
  induction hrun with
  | refl => exact hfresh.astray
  | tail _ hstep ih => exact ih.step hstep

/-- Whatever publishers, workers and commands do: a dead letter is requeued under the key of the
dead letter exchange, and what was requeued is only ever in queues whose binding accepts this key.
That is no queue of a handler of another topic and of no scheduled action. -/
theorem requeued_never_returns {s : System} (h : Reachable e app s) :
    (∀ m ∈ s.broker.messages deadLetterQueue,
      (requeuePublication m.raw).routingKey = deadLetterExchange) ∧
      (∀ name, name ≠ deadLetterQueue → ∀ m ∈ s.broker.messages name, m.requeued = true →
        TakesDeadLetters app name) ∧
      ∀ topic, Plain topic →
        (topicMatch (genRoutingKey topic) deadLetterExchange = true ↔ topic = deadLetterExchange) ∧
        (topicMatch topic deadLetterExchange = true ↔ topic = deadLetterExchange) := by
  have hastray := h.astray
  refine ⟨fun m hm => requeuePublication_routingKey (hastray.dead m hm), hastray.marked, ?_⟩
  intro topic hplain
  exact ⟨topicMatch_handler hplain, topicMatch_plain hplain⟩

/-- A message of the topic `user`, and the application with a handler for it. -/
def userMessage : RawMessage := ⟨[], some "user.#", none, none, none⟩

def users : System := ⟨ForcedInfrastructure.usersBroker [], []⟩

def onUserQueue : QueueDeclaration := ⟨"user.app.Users.on_user", "user.#", false⟩

def users.published : System :=
  users.withBroker
    (publish users.broker plainFlags.exchange (genRoutingKey "user") ⟨userMessage, false⟩)

def users.rejected : System :=
  users.published.withBroker
    (deadLetter (users.published.broker.setMessages onUserQueue.queueName [])
    onUserQueue.queueName onUserQueue.args ⟨userMessage, false⟩)

def deadUserMessage : RawMessage :=
  ⟨[], some "dlx",
    some [.table ⟨some "user.app.Users.on_user", some "rejected", some (.number 1), none⟩],
    none, none⟩

def users.requeued : System :=
  users.rejected.withBroker
    (publish (users.rejected.broker.setMessages deadLetterQueue []) plainFlags.exchange
    (requeuePublication deadUserMessage).routingKey (requeuedMessage deadUserMessage))

theorem users_fresh : Fresh plainFlags [usersController] users := by
  refine ⟨ForcedInfrastructure.usersBroker_complete false [], ?_, ?_, rfl⟩
  · intro b hb
    obtain rfl | hb := List.mem_cons.mp hb
    · exact .inl rfl
    · rw [List.mem_singleton.mp hb, ForcedInfrastructure.declarations_users]
      exact .inr ⟨_, List.mem_singleton.mpr rfl, rfl⟩
  · intro name
    simp only [users, Broker.messages, ForcedInfrastructure.usersBroker]
    split
    · rfl
    · split <;> rfl

theorem users_published_step : Step plainFlags [usersController] users users.published :=
  .publish users "user" userMessage

theorem users_rejected_step : Step plainFlags [usersController] users.published users.rejected := by
  refine .reject users.published onUserQueue ?_ [] [] ⟨userMessage, false⟩ (by decide)
  rw [ForcedInfrastructure.declarations_users]
  exact List.mem_singleton.mpr rfl

theorem users_requeued_step : Step plainFlags [usersController] users.rejected users.requeued :=
  .requeue users.rejected [] [] ⟨deadUserMessage, false⟩ true (by decide)

theorem users_requeued_reachable : Reachable plainFlags [usersController] users.requeued :=
  ⟨users, users_fresh,
    ((Relation.ReflTransGen.refl.tail users_published_step).tail users_rejected_step).tail
      users_requeued_step⟩

/-- The message is published, rejected by its handler, and requeued: nobody gets it. -/
theorem requeued_user_message_is_gone :
    users.rejected.broker.messages deadLetterQueue = [⟨deadUserMessage, false⟩] ∧
      users.requeued.broker.messages deadLetterQueue = [] ∧
      users.requeued.broker.messages onUserQueue.queueName = [] ∧
      ∀ name, name ≠ deadLetterQueue →
        ∀ m ∈ users.requeued.broker.messages name, m.requeued = true →
        TakesDeadLetters [usersController] name :=
  ⟨by decide, by decide, by decide, (requeued_never_returns users_requeued_reachable).2.1⟩

end DeadLetterRouting

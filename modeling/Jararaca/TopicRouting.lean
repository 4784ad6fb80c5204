import Jararaca.TopicPatterns
import Jararaca.RetryLineage
import Jararaca.Controllers

/-!
# Routing by topic

The string that `gen_routing_key` makes of a topic is the binding pattern of a handler's
queue and, taken literally, the routing key of every message of that topic, published at
once or by the beat worker. Whether a queue gets a message is then a question of matching
one topic as a pattern against another as a text.
-/
namespace TopicRouting

open Messages Interceptors Controllers TopicPatterns RetryLineage

def words (s : String) : List (List Char) := s.toList.splitOn '.'

def readWord (w : List Char) : Word (List Char) :=
  if w = ['*'] then .star else if w = ['#'] then .hash else .lit w

/-- Matching of the topic exchange: wildcards in the binding, none in the key. -/
def topicMatch (binding key : String) : Bool := accepts ((words binding).map readWord) (words key)

inductive Exchange where
  | default | main
  deriving DecidableEq, Repr

/-- The exchange and the routing key with which `dispatch_delayed_message` publishes. -/
def dispatchDelayedMessage (d : DelayedMessageData) : Exchange × String :=
  match truthy d.targetQueue with
  | some queue => (.default, queue)
  | none => (.main, d.messageTopic ++ ".#")

/-- A message on its way to the broker: by `_publish`, or by the beat worker. -/
inductive Publication where
  | immediate (m : BusMessage) (implicit : Headers) (span : PublishSpan)
  | delayed (d : DelayedMessageData)

namespace Publication

def topic : Publication → String
  | immediate m _ _ => m.topic
  | delayed d => d.messageTopic

def sentTo : Publication → Exchange × String
  | immediate m implicit span => (.main, (outgoing implicit span m).routingKey)
  | delayed d => dispatchDelayedMessage d

/-- Not for one queue alone: published, or delayed without target queue. -/
def Untargeted : Publication → Prop
  | immediate _ _ _ => True
  | delayed d => truthy d.targetQueue = none

theorem sentTo_untargeted {p : Publication} (h : p.Untargeted) :
    p.sentTo = (.main, genRoutingKey p.topic) := by
  cases p with
  | immediate m implicit span => rfl
  | delayed d =>
    have hnone : truthy d.targetQueue = none := h
    rw [sentTo, dispatchDelayedMessage, hnone]
    rfl

end Publication

/-- The bindings after the queue of each of these member functions was declared. -/
def declared (members : List PyFunction) : List Binding :=
  members.filterMap declareMessageHandlerQueue

def routed (members : List PyFunction) (p : Publication) (queue : String) : Bool :=
  match p.sentTo with
  | (.default, key) => queue == key
  | (.main, key) => (declared members).any fun b => b.queue == queue && topicMatch b.routingKey key

/-- A topic, read as a pattern, accepts the first words of the routing key of another. -/
def Covers (topic other : String) : Prop :=
  ∃ first, first <+: words other ++ [['#']] ∧ accepts ((words topic).map readWord) first = true

/-- No word of the topic is a wildcard. -/
def Plain (topic : String) : Prop := ['*'] ∉ words topic ∧ ['#'] ∉ words topic

theorem words_genRoutingKey (topic : String) :
    words (genRoutingKey topic) = words topic ++ [['#']] := by
  have htext : (genRoutingKey topic).toList = topic.toList ++ '.' :: ['#'] := by
    simp [genRoutingKey]
  have hhash : ['#'].splitOn '.' = [['#']] := by decide
  rw [words, htext, List.splitOn_append_cons_self, hhash]
  rfl

theorem topicMatch_genRoutingKey (topic other : String) :
    topicMatch (genRoutingKey topic) (genRoutingKey other) = true ↔ Covers topic other := by
  have hhash : readWord ['#'] = .hash := by decide
  rw [topicMatch, words_genRoutingKey, words_genRoutingKey, List.map_append,
    List.map_singleton, hhash,
    accepts_concat_hash, Covers]

theorem covers_self (topic : String) : Covers topic topic := by
  refine ⟨words topic, List.prefix_append _ _, ?_⟩
  apply accepts_self
  intro w
  unfold readWord
  split
  · rfl
  · split
    · exact accepts_hash [w]
    · simp [accepts]

theorem map_readWord {ws : List (List Char)} (hstar : ['*'] ∉ ws) (hhash : ['#'] ∉ ws) :
    ws.map readWord = ws.map .lit := by
  apply List.map_congr_left
  intro w hw
  have hs : w ≠ ['*'] := fun heq => hstar (heq ▸ hw)
  have hh : w ≠ ['#'] := fun heq => hhash (heq ▸ hw)
  simp [readWord, hs, hh]

/-- Without wildcards: the words of the one begin the words of the other. -/
theorem covers_plain {topic : String} (h : Plain topic) (other : String) :
    Covers topic other ↔ words topic <+: words other := by
  unfold Covers
  rw [map_readWord h.1 h.2]
  simp only [accepts_lits, exists_eq_right, List.prefix_concat_iff]
  constructor
  · rintro (heq | hprefix)
    · exact absurd (by simp [heq]) h.2
    · exact hprefix
  · exact .inr

theorem routed_iff {members : List PyFunction} {p : Publication} (hp : p.Untargeted)
    (queue : String) :
    routed members p queue = true ↔ ∃ f ∈ members, ∃ h, f.messageHandler = some h ∧
      genQueueName h.messageType f = queue ∧ Covers h.messageType.topic p.topic := by
  unfold routed
  rw [p.sentTo_untargeted hp]
  simp only [declared, List.any_eq_true, List.mem_filterMap, declareMessageHandlerQueue,
    Option.map_eq_some_iff, Bool.and_eq_true, beq_iff_eq]
  constructor
  · rintro ⟨b, ⟨f, hf, h, hh, rfl⟩, hqueue, hmatch⟩
    exact ⟨f, hf, h, hh, hqueue, (topicMatch_genRoutingKey _ _).mp hmatch⟩
  · rintro ⟨f, hf, h, hh, hqueue, hcovers⟩
    exact ⟨_, ⟨f, hf, h, hh, rfl⟩, hqueue, (topicMatch_genRoutingKey _ _).mpr hcovers⟩

/-- Every message of these topics reaches the queues of the handlers of its topic, and
no queue of another handler. -/
def RoutedByTopic (topics : Set String) (members : List PyFunction) : Prop :=
  ∀ p : Publication, p.Untargeted → p.topic ∈ topics →
    ∀ f ∈ members, ∀ h, f.messageHandler = some h →
      (routed members p (genQueueName h.messageType f) = true ↔ h.messageType.topic = p.topic)

/-- A relation that holds between the topic of a handler and another topic holds only
where the handler with that queue is for the other topic. -/
def OnlyOwnTopic (topics : Set String) (members : List PyFunction)
    (R : String → String → Prop) : Prop :=
  ∀ topic ∈ topics, ∀ f ∈ members, ∀ h, f.messageHandler = some h →
    ∀ f' ∈ members, ∀ h', f'.messageHandler = some h' →
      genQueueName h'.messageType f' = genQueueName h.messageType f →
        R h'.messageType.topic topic → h.messageType.topic = topic

/-- Messages are routed by topic, exactly when the topic of no queue covers another handler's. -/
theorem routedByTopic_iff_covers (topics : Set String) (members : List PyFunction) :
    RoutedByTopic topics members ↔ OnlyOwnTopic topics members Covers := by
  constructor
  · intro hall topic htopic f hf h hh f' hf' h' hh' hqueue hcovers
    -- a message of the topic, published at once
    let p : Publication := .immediate ⟨topic, [], false⟩ Headers.empty .off
    apply (hall p trivial htopic f hf h hh).mp
    exact (routed_iff (p := p) trivial _).mpr ⟨f', hf', h', hh', hqueue, hcovers⟩
  · intro hown p hp htopic f hf h hh
    rw [routed_iff hp]
    constructor
    · rintro ⟨f', hf', h', hh', hqueue, hcovers⟩
      exact hown p.topic htopic f hf h hh f' hf' h' hh' hqueue hcovers
    · intro heq
      refine ⟨f, hf, h, hh, rfl, ?_⟩
      rw [heq]
      exact covers_self p.topic

/-- Messages reach exactly the handlers of their topic where no topic of a handler,
followed by a hash, covers another one; for topics without wildcards, where no topic of a
handler is a dotted beginning of another one. -/
theorem routed_by_topic_iff (topics : Set String) (members : List PyFunction) :
    (RoutedByTopic topics members ↔ OnlyOwnTopic topics members Covers) ∧
      ((∀ f ∈ members, ∀ h, f.messageHandler = some h → Plain h.messageType.topic) →
        (RoutedByTopic topics members ↔
          OnlyOwnTopic topics members fun topic other => words topic <+: words other)) := by
  have hiff := routedByTopic_iff_covers topics members
  refine ⟨hiff, ?_⟩
  intro hplain
  rw [hiff]
  constructor
  · intro hown topic htopic f hf h hh f' hf' h' hh' hqueue hprefix
    apply hown topic htopic f hf h hh f' hf' h' hh' hqueue
    exact (covers_plain (hplain f' hf' h' hh') topic).mpr hprefix
  · intro hown topic htopic f hf h hh f' hf' h' hh' hqueue hcovers
    apply hown topic htopic f hf h hh f' hf' h' hh' hqueue
    exact (covers_plain (hplain f' hf' h' hh') topic).mp hcovers

/-- A handler of the topic `user`. -/
def onUser : PyFunction where
  ref := 0
  module := "app"
  qualname := "Users.on_user"
  messageHandlers := [{ messageType := ⟨"user", false⟩ }]

/-- The queue of the handler of `user` also gets the messages of `user.created`. -/
theorem user_gets_created : ¬RoutedByTopic {"user.created"} [onUser] := by
  rw [routedByTopic_iff_covers]
  intro hown
  have hcovers : Covers "user" "user.created" := ⟨words "user", by decide, by decide⟩
  have heq := hown "user.created" rfl onUser (by simp) _ rfl onUser (by simp) _ rfl rfl hcovers
  exact absurd heq (by decide)

end TopicRouting

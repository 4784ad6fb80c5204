import Mathlib.Logic.Relation
import Jararaca.RoomMessages

/-!
# The payloads of the send consumer

`consume_send` of websocket/redis.py with what its subscription receives. A payload is decoded
outside of the inner `try`, whose handler goes on with the next message, so a payload that
does not decode ends the task, and nothing is received until the restart after `retry_delay`.
The tasks of `send_with_cleanup` start in the order in which they were created. Redis answers,
nobody cancels the consumer, and the shutdown event is not set.
-/
namespace SendConsumer

open Messages RoomMessages

/-- At `get_message`, at the semaphore with a decoded message, or ended until its restart. -/
inductive Pc where
  | fetching
  | acquiring (m : SendToRoomsMessage)
  | ended

/-- The decoded message that no task has yet. -/
def Pc.waiting : Pc → List SendToRoomsMessage
  | .acquiring m => [m]
  | .fetching | .ended => []

/-- The consumer, its subscription, the permits and the tasks. `others` are the permits of the
broadcast consumer. Behind them what has happened: the payloads received while subscribed, those
published while not, those `get_message` returned, the calls of the send function, and how
often the consumer's task ended. -/
structure Consumer where
  value : Nat
  pc : Pc := .fetching
  inbox : List Bytes := []
  created : List SendToRoomsMessage := []
  running : Nat := 0
  others : Nat := 0
  received : List Bytes := []
  missed : List Bytes := []
  fetched : List Bytes := []
  handed : List SendToRoomsMessage := []
  endings : Nat := 0

namespace Consumer

/-- Redis delivers a payload to the subscription, if there is one. -/
def publish (s : Consumer) (payload : Bytes) : Consumer :=
  match s.pc with
  | .ended => { s with missed := s.missed ++ [payload] }
  | .fetching | .acquiring _ =>
    { s with inbox := s.inbox ++ [payload], received := s.received ++ [payload] }

/-- `get_message` returned the payload. -/
def fetch (s : Consumer) (payload : Bytes) (rest : List Bytes) : Consumer :=
  { s with inbox := rest, fetched := s.fetched ++ [payload] }

/-- With a permit, the task of the message is created. -/
def create (s : Consumer) (m : SendToRoomsMessage) : Consumer :=
  { s with value := s.value - 1, created := s.created ++ [m], pc := .fetching }

/-- The exception leaves the loop, and with it the subscription. -/
def raised (s : Consumer) : Consumer :=
  { s with pc := .ended, inbox := [], endings := s.endings + 1 }

/-- The first step of a task calls the send function. -/
def call (s : Consumer) (m : SendToRoomsMessage) (rest : List SendToRoomsMessage) : Consumer :=
  { s with created := rest, running := s.running + 1, handed := s.handed ++ [m] }

end Consumer

/-- What the consumer and the tasks do by themselves. -/
inductive Work : Consumer → Consumer → Prop
  | takes {s payload rest m} (hpc : s.pc = .fetching) (hinbox : s.inbox = payload :: rest)
      (hdecode : decode payload = .ok m) (hvalue : 0 < s.value) :
        Work s ((s.fetch payload rest).create m)
  | queues {s payload rest m} (hpc : s.pc = .fetching) (hinbox : s.inbox = payload :: rest)
      (hdecode : decode payload = .ok m) (hvalue : s.value = 0) :
      Work s { s.fetch payload rest with pc := .acquiring m }
  | raises {s payload rest e} (hpc : s.pc = .fetching) (hinbox : s.inbox = payload :: rest)
      (hdecode : decode payload = .error e) : Work s (s.fetch payload rest).raised
  | acquires {s m} (hpc : s.pc = .acquiring m) (hvalue : 0 < s.value) : Work s (s.create m)
  | starts {s m rest} (hcreated : s.created = m :: rest) : Work s (s.call m rest)
  -- the send function returned or raised: the `finally` is the same
  | finishes {s} (hrunning : 0 < s.running) :
      Work s { s with running := s.running - 1, value := s.value + 1 }
  | returns {s} (hothers : 0 < s.others) :
      Work s { s with others := s.others - 1, value := s.value + 1 }

inductive Step : Consumer → Consumer → Prop
  | work {s t} (h : Work s t) : Step s t
  | publishes (s : Consumer) (payload : Bytes) : Step s (s.publish payload)
  | borrows {s} (hvalue : 0 < s.value) :
      Step s { s with value := s.value - 1, others := s.others + 1 }
  | restarts {s} (hpc : s.pc = .ended) : Step s { s with pc := .fetching }

/-- What may come after the consumer has subscribed. -/
def Reachable (maxConcurrentTasks : Nat) : Consumer → Prop :=
  Relation.ReflTransGen Step { value := maxConcurrentTasks }

def decoded (payload : Bytes) : Option SendToRoomsMessage :=
  match decode payload with
  | .ok m => some m
  | .error _ => none

def Decodable (payload : Bytes) : Prop := ∃ m, decode payload = .ok m

/-- Nothing is left to do: every message is fetched and every task has finished. -/
def Settled (s : Consumer) : Prop := ∀ t, ¬Work s t

/-- The consumer never ended and no payload passed it; and the decodable payloads it received
are, in their order, those handed to the send function, those on their way to it and those not
yet fetched. When it has settled, all of them have been handed over. -/
structure Delivers (maxConcurrentTasks : Nat) (s : Consumer) : Prop where
  alive : s.endings = 0 ∧ s.missed = []
  ordered : s.received.filterMap decoded =
    s.handed ++ s.created ++ s.pc.waiting ++ s.inbox.filterMap decoded
  settled : 0 < maxConcurrentTasks → Settled s → s.handed = s.received.filterMap decoded

section Work

variable {maxConcurrentTasks : Nat} {s t : Consumer}

/-- No permit is lost, and a task of the consumer has one. -/
def Permits (maxConcurrentTasks : Nat) (s : Consumer) : Prop :=
  s.value + s.created.length + s.running + s.others = maxConcurrentTasks

/-- The tasks give back every permit they take. -/
theorem permits_work (h : Work s t) (hs : Permits maxConcurrentTasks s) :
    Permits maxConcurrentTasks t := by
  unfold Permits at hs ⊢
  cases h with
  | takes hpc hinbox hdecode hvalue =>
    simp only [Consumer.create, Consumer.fetch, List.length_append, List.length_singleton]
    omega
  | queues hpc hinbox hdecode hvalue => exact hs
  | raises hpc hinbox hdecode => exact hs
  | acquires hpc hvalue =>
    simp only [Consumer.create, List.length_append, List.length_singleton]
    omega
  | starts hcreated =>
    rw [hcreated, List.length_cons] at hs
    simp only [Consumer.call]
    omega
  | finishes hrunning =>
    simp only
    omega
  | returns hothers =>
    simp only
    omega

/-- What is published only changes what was received or missed. -/
theorem publish_cases (s : Consumer) (payload : Bytes) :
    s.pc = .ended ∧ s.publish payload = { s with missed := s.missed ++ [payload] } ∨
      s.pc ≠ .ended ∧ s.publish payload = { s with
        inbox := s.inbox ++ [payload], received := s.received ++ [payload] } := by
  unfold Consumer.publish
  cases hpc : s.pc with
  | ended => exact .inl ⟨rfl, rfl⟩
  | fetching => exact .inr ⟨nofun, rfl⟩
  | acquiring m => exact .inr ⟨nofun, rfl⟩

theorem permits_step (h : Step s t) (hs : Permits maxConcurrentTasks s) :
    Permits maxConcurrentTasks t := by
  cases h with
  | work h => exact permits_work h hs
  | publishes payload =>
    obtain ⟨-, heq⟩ | ⟨-, heq⟩ := publish_cases s payload
    · exact heq ▸ hs
    · exact heq ▸ hs
  | borrows hvalue =>
    unfold Permits at hs ⊢
    simp only
    omega
  | restarts hpc => exact hs

/-- A payload that does not decode is the only way in which the task ends. -/
theorem endings_step (h : Step s t)
    (hs : s.endings = 0 ↔ ∀ payload ∈ s.fetched, Decodable payload) :
    t.endings = 0 ↔ ∀ payload ∈ t.fetched, Decodable payload := by
  cases h with
  | work h =>
    cases h with
    | takes hpc hinbox hdecode hvalue =>
      simp only [Consumer.create, Consumer.fetch, List.forall_mem_append, List.forall_mem_singleton]
      rw [hs, iff_self_and]
      exact fun _ => ⟨_, hdecode⟩
    | queues hpc hinbox hdecode hvalue =>
      simp only [Consumer.fetch, List.forall_mem_append, List.forall_mem_singleton]
      rw [hs, iff_self_and]
      exact fun _ => ⟨_, hdecode⟩
    | @raises payload rest e hpc hinbox hdecode =>
      have hbad : ¬Decodable payload := by
        rintro ⟨m, hm⟩
        rw [hdecode] at hm
        cases hm
      simp [Consumer.raised, Consumer.fetch, hbad]
    | acquires hpc hvalue => exact hs
    | starts hcreated => exact hs
    | finishes hrunning => exact hs
    | returns hothers => exact hs
  | publishes payload =>
    obtain ⟨-, heq⟩ | ⟨-, heq⟩ := publish_cases s payload
    · exact heq ▸ hs
    · exact heq ▸ hs
  | borrows hvalue => exact hs
  | restarts hpc => exact hs

/-- While the task has not ended, every payload is accounted for. -/
structure Accounted (s : Consumer) : Prop where
  pc : s.pc ≠ .ended
  missed : s.missed = []
  received : s.received = s.fetched ++ s.inbox
  fetched : s.fetched.filterMap decoded = s.handed ++ s.created ++ s.pc.waiting

theorem filterMap_fetch {payload : Bytes} {m : SendToRoomsMessage} (fetched : List Bytes)
    (hdecode : decode payload = .ok m) :
    (fetched ++ [payload]).filterMap decoded = fetched.filterMap decoded ++ [m] := by
  have hm : decoded payload = some m := by rw [decoded, hdecode]
  rw [List.filterMap_append, List.filterMap_cons_some hm, List.filterMap_nil]

/-- While the consumer has not ended every payload is delivered or under way. -/
theorem accounted_step (h : Step s t) (ht : t.endings = 0) (hs : s.endings = 0 → Accounted s) :
    Accounted t := by
  cases h with
  | work h =>
    cases h with
    | takes hpc hinbox hdecode hvalue =>
      obtain ⟨-, hmissed, hreceived, hfetched⟩ := hs ht
      rw [hpc] at hfetched
      refine ⟨by simp [Consumer.create], hmissed, ?_, ?_⟩
      · simp [Consumer.create, Consumer.fetch, hreceived, hinbox]
      · simp only [Consumer.create, Consumer.fetch, filterMap_fetch _ hdecode, hfetched]
        simp [Pc.waiting]
    | queues hpc hinbox hdecode hvalue =>
      obtain ⟨-, hmissed, hreceived, hfetched⟩ := hs ht
      rw [hpc] at hfetched
      refine ⟨by simp, hmissed, ?_, ?_⟩
      · simp [Consumer.fetch, hreceived, hinbox]
      · simp only [Consumer.fetch, filterMap_fetch _ hdecode, hfetched]
        simp [Pc.waiting]
    | raises hpc hinbox hdecode => cases ht
    | acquires hpc hvalue =>
      obtain ⟨-, hmissed, hreceived, hfetched⟩ := hs ht
      rw [hpc] at hfetched
      refine ⟨by simp [Consumer.create], hmissed, hreceived, ?_⟩
      simp [Consumer.create, hfetched, Pc.waiting]
    | starts hcreated =>
      obtain ⟨hpc, hmissed, hreceived, hfetched⟩ := hs ht
      refine ⟨hpc, hmissed, hreceived, ?_⟩
      simp [Consumer.call, hfetched, hcreated]
    | finishes hrunning =>
      obtain ⟨hpc, hmissed, hreceived, hfetched⟩ := hs ht
      exact ⟨hpc, hmissed, hreceived, hfetched⟩
    | returns hothers =>
      obtain ⟨hpc, hmissed, hreceived, hfetched⟩ := hs ht
      exact ⟨hpc, hmissed, hreceived, hfetched⟩
  | publishes payload =>
    obtain ⟨hended, heq⟩ | ⟨-, heq⟩ := publish_cases s payload
    · rw [heq] at ht
      exact absurd hended (hs ht).pc
    · rw [heq] at ht ⊢
      obtain ⟨hpc, hmissed, hreceived, hfetched⟩ := hs ht
      refine ⟨hpc, hmissed, ?_, hfetched⟩
      simp [hreceived]
  | borrows hvalue =>
    obtain ⟨hpc, hmissed, hreceived, hfetched⟩ := hs ht
    exact ⟨hpc, hmissed, hreceived, hfetched⟩
  | restarts hpc => exact absurd hpc (hs ht).pc

/-- The permits, the payloads and the cause of an end in every state. -/
theorem reachable_invariant (h : Reachable maxConcurrentTasks s) :
    Permits maxConcurrentTasks s ∧ (s.endings = 0 ↔ ∀ payload ∈ s.fetched, Decodable payload) ∧
      (s.endings = 0 → Accounted s) := by
  induction h with
  | refl => exact ⟨rfl, by simp, fun _ => ⟨by simp, rfl, rfl, rfl⟩⟩
  | tail _ hstep ih =>
    obtain ⟨hpermits, hendings, haccounted⟩ := ih
    exact ⟨permits_step hstep hpermits, endings_step hstep hendings,
      fun ht => accounted_step hstep ht haccounted⟩

/-- A live consumer with a semaphore that has permits settles only with nothing left: if a
message waits for a permit, some task has one and goes on. -/
theorem settled_idle (hpermits : Permits maxConcurrentTasks s) (hmax : 0 < maxConcurrentTasks)
    (hpc : s.pc ≠ .ended)
    (hsettled : Settled s) : s.created = [] ∧ s.pc.waiting = [] ∧ s.inbox = [] := by
  have hcreated : s.created = [] := by
    cases hc : s.created with
    | nil => rfl
    | cons m rest => exact absurd (.starts hc) (hsettled _)
  have hrunning : s.running = 0 := by
    by_contra hne
    exact hsettled _ (.finishes (Nat.pos_of_ne_zero hne))
  have hothers : s.others = 0 := by
    by_contra hne
    exact hsettled _ (.returns (Nat.pos_of_ne_zero hne))
  have hvalue : 0 < s.value := by
    unfold Permits at hpermits
    rw [hcreated, List.length_nil] at hpermits
    omega
  cases hcase : s.pc with
  | ended => exact absurd hcase hpc
  | acquiring m => exact absurd (.acquires hcase hvalue) (hsettled _)
  | fetching =>
    refine ⟨hcreated, rfl, ?_⟩
    cases hinbox : s.inbox with
    | nil => rfl
    | cons payload rest =>
      cases hdecode : decode payload with
      | ok m => exact absurd (.takes hcase hinbox hdecode hvalue) (hsettled _)
      | error e => exact absurd (.raises hcase hinbox hdecode) (hsettled _)

/-- How much the consumer and the tasks still have to do. -/
def remaining (s : Consumer) : Nat :=
  4 * s.inbox.length + 3 * s.pc.waiting.length + 2 * s.created.length + s.running + s.others

/-- Each step of the tasks leaves less to do. -/
theorem remaining_work (h : Work s t) : remaining t < remaining s := by
  unfold remaining
  cases h with
  | takes hpc hinbox hdecode hvalue =>
    rw [hpc, hinbox]
    simp [Consumer.create, Consumer.fetch, Pc.waiting]
    omega
  | queues hpc hinbox hdecode hvalue =>
    rw [hpc, hinbox]
    simp [Consumer.fetch, Pc.waiting]
    omega
  | raises hpc hinbox hdecode =>
    rw [hpc, hinbox]
    simp [Consumer.raised, Consumer.fetch, Pc.waiting]
  | acquires hpc hvalue =>
    rw [hpc]
    simp [Consumer.create, Pc.waiting]
    omega
  | starts hcreated =>
    rw [hcreated]
    simp [Consumer.call]
    omega
  | finishes hrunning =>
    simp only
    omega
  | returns hothers =>
    simp only
    omega

/-- Left to themselves the consumer and the tasks settle. -/
theorem exists_settled (s : Consumer) : ∃ t, Relation.ReflTransGen Work s t ∧ Settled t := by
  induction hn : remaining s using Nat.strong_induction_on generalizing s with
  | _ n ih =>
    by_cases hsettled : Settled s
    · exact ⟨s, .refl, hsettled⟩
    · unfold Settled at hsettled
      rw [not_forall_not] at hsettled
      obtain ⟨u, hu⟩ := hsettled
      obtain ⟨t, ht, hend⟩ := ih (remaining u) (hn ▸ remaining_work hu) u rfl
      exact ⟨t, .head hu ht, hend⟩

/-- The consumer delivers exactly as long as every payload that it fetched decodes. -/
theorem payloads_delivered_iff (maxConcurrentTasks : Nat) (s : Consumer)
    (h : Reachable maxConcurrentTasks s) :
    Delivers maxConcurrentTasks s ↔ ∀ payload ∈ s.fetched, Decodable payload := by
  obtain ⟨hpermits, hendings, haccounted⟩ := reachable_invariant h
  constructor
  · intro hdelivers
    exact hendings.mp hdelivers.alive.1
  · intro hdecodable
    have halive := hendings.mpr hdecodable
    obtain ⟨hpc, hmissed, hreceived, hfetched⟩ := haccounted halive
    have hordered : s.received.filterMap decoded =
        s.handed ++ s.created ++ s.pc.waiting ++ s.inbox.filterMap decoded := by
      rw [hreceived, List.filterMap_append, hfetched]
    refine ⟨⟨halive, hmissed⟩, hordered, ?_⟩
    intro hmax hsettled
    obtain ⟨hcreated, hwaiting, hinbox⟩ := settled_idle hpermits hmax hpc hsettled
    rw [hordered, hcreated, hwaiting, hinbox]
    simp

end Work

section Runs

/-- A message to one room. -/
def hello : SendToRoomsMessage := { rooms := [name "a"], message := [7] }

theorem decode_hello : decode [97, 0, 7] = .ok hello := by
  have htrips : RoundTrips hello :=
    roundTrips_of_plain ⟨by decide, by simp [hello, PlainName, name], by decide⟩
  have hencode : encode hello = .ok [97, 0, 7] := by decide
  rw [RoundTrips, hencode] at htrips
  exact htrips

/-- A payload without the NUL byte. -/
theorem decode_malformed : decode [97] = .error .valueError := rfl

theorem payloads_delivered_iff_hello :
    ∃ s, Reachable 1 s ∧ s.handed = [hello] ∧ Delivers 1 s := by
  have hpublished : Reachable 1 _ := .single (.publishes { value := 1 } [97, 0, 7])
  have htaken := hpublished.tail (.work (.takes rfl rfl decode_hello Nat.one_pos))
  have hstarted := htaken.tail (.work (.starts rfl))
  refine ⟨_, hstarted, rfl, (payloads_delivered_iff 1 _ hstarted).mpr ?_⟩
  intro payload hpayload
  rw [List.mem_singleton.mp hpayload]
  exact ⟨hello, decode_hello⟩

/-- One payload without the NUL byte: the message received behind it is dropped with the
subscription, the one published before the restart is missed, and none is handed over. -/
theorem malformed_payload_loses_messages :
    ∃ s, Reachable 1 s ∧ Settled s ∧ s.received = [[97], [97, 0, 7]] ∧ s.missed = [[97, 0, 7]] ∧
      s.endings = 1 ∧
      s.handed = [] ∧ s.received.filterMap decoded = [hello] := by
  have hpublished : Reachable 1 _ := .single (.publishes { value := 1 } [97])
  have hbehind := hpublished.tail (.publishes _ [97, 0, 7])
  have hraised := hbehind.tail (.work (.raises rfl rfl decode_malformed))
  have hmissed := hraised.tail (.publishes _ [97, 0, 7])
  have hrestarted := hmissed.tail (.restarts rfl)
  refine ⟨_, hrestarted, ?_, rfl, rfl, rfl, rfl, ?_⟩
  · intro t ht
    cases ht with
    | takes hpc hinbox hdecode hvalue => cases hinbox
    | queues hpc hinbox hdecode hvalue => cases hinbox
    | raises hpc hinbox hdecode => cases hinbox
    | acquires hpc hvalue => cases hpc
    | starts hcreated => cases hcreated
    | finishes hrunning => cases hrunning
    | returns hothers => cases hothers
  · have hbad : decoded [97] = none := by rw [decoded, decode_malformed]
    have hgood : decoded [97, 0, 7] = some hello := by rw [decoded, decode_hello]
    change [[97], [97, 0, 7]].filterMap decoded = [hello]
    rw [List.filterMap_cons_none hbad, List.filterMap_cons_some hgood, List.filterMap_nil]

end Runs

end SendConsumer

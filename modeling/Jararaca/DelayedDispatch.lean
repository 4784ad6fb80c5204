import Jararaca.DelayedStore
import Mathlib.Data.Multiset.Defs
import Mathlib.Logic.Relation

/-!
# The dispatch of delayed messages

The delayed-message half of `BeatWorker.run_scheduled_actions` for any number of beat
workers on one backend, together with the producers. A cycle reads the clock, claims a
batch, and goes through it: a dispatch publishes its message or fails without publishing,
and what failed is enqueued again. Each step is what happens between two awaits that
another party can see, and the steps interleave in any order.

Some fields of the system are not in the program, only records of the run: the messages
that were ever enqueued without an idempotency key, the claims so far, and for each task
id a ticket, which says whose payload is stored under it, and who has touched it.
-/
namespace DelayedDispatch

open Messages SortedSets DelayedStore Doubles

/-- The payload under a task id: which of the messages without key it is, the second at
which its dispatch failed if it was put back, and whether one more enqueue for the task
id met it in the backend. -/
structure Ticket where
  origin : Option Nat
  failedAt : Option Int := none
  contested : Bool := false
  deriving DecidableEq

inductive Touch where
  | produced (m : DelayedMessageData)
  | claimed
  | putBack

/-- A message of a claimed batch; `seen` is how often its task id had been touched by then. -/
structure Claimed where
  taskId : String
  ticket : Ticket
  seen : Nat
  message : DelayedMessageData

/-- Where a beat worker stands in its cycle. In `failed` the dispatch of the first message
has raised, at that time, and it is not yet put back. -/
inductive Pc where
  | idle
  | cycle (now : Int)
  | dispatching (batch : List Claimed)
  | failed (c : Claimed) (time : ℚ) (rest : List Claimed)

/-- The messages a worker has claimed and not yet dealt with. -/
def Pc.hand : Pc → List Claimed
  | .idle | .cycle _ => []
  | .dispatching batch => batch
  | .failed c _ rest => c :: rest

@[simp] theorem hand_dispatching (batch : List Claimed) : (Pc.dispatching batch).hand = batch := rfl

structure Worker where
  pc : Pc := .idle
  shutdownEvent : Bool := false

structure System (ω : Type) where
  store : Store
  workers : ω → Worker
  /-- the messages producers enqueued without an idempotency key, in order -/
  enqueued : List DelayedMessageData
  published : List Claimed
  /-- every claim, with the timestamp of its dequeue -/
  claims : List (Claimed × Int)
  tickets : String → Option Ticket
  touches : String → List Touch

def System.start {ω : Type} : System ω where
  store := Store.empty
  workers _ := {}
  enqueued := []
  published := []
  claims := []
  tickets _ := none
  touches _ := []

/-- Where a message can be. -/
inductive Spot (ω : Type) where
  | backend
  | hand (w : ω)
  | broker
  deriving DecidableEq

/-- The message a task id stands for. -/
def System.origin {ω : Type} (s : System ω) (id : String) : Option Nat :=
  (s.tickets id).bind Ticket.origin

def Claimed.origin (c : Claimed) : Option Nat := c.ticket.origin

/-- The messages without key at each place, by their place in `enqueued`. -/
def System.contents {ω : Type} (s : System ω) : Spot ω → Multiset Nat
  | .backend => s.store.delayedMessages.members.filterMap s.origin
  | .hand w => (s.workers w).pc.hand.filterMap Claimed.origin
  | .broker => s.published.filterMap Claimed.origin

/-- The task id is a uuid: `idempotency_key or str(uuid4())`. -/
def Unkeyed (m : DelayedMessageData) : Prop := m.idempotencyKey = none ∨ m.idempotencyKey = some ""

instance (m : DelayedMessageData) : Decidable (Unkeyed m) :=
  inferInstanceAs (Decidable (m.idempotencyKey = none ∨ m.idempotencyKey = some ""))

/-- The first payload stays: the condition of `SET … NX`. -/
def keepsPayload (m : DelayedMessageData) (id : String) (s : Store) : Bool :=
  isIdempotent m && m.payloadPolicy == .ignore && (s.metadata (metadataKey id)).isSome

def failedDispatchRequeueDelaySeconds : Int := 10

/-- `model_copy(update={"dispatch_time": int(time.time()) +
FAILED_DISPATCH_REQUEUE_DELAY_SECONDS})`. -/
def requeued (m : DelayedMessageData) (time : ℚ) : DelayedMessageData :=
  { m with dispatchTime := truncate time + failedDispatchRequeueDelaySeconds }

/-- `time.time()` counts nanoseconds in 64 bits. -/
def Reading (time : ℚ) : Prop := |time * 10 ^ 9| ≤ 2 ^ 63

section Updates

variable {ω : Type} (codec : Codec)

/-- A generated uuid is a task id no one has used, and no idempotency key is a uuid some
message without key was given. -/
def Fresh (s : System ω) (m : DelayedMessageData) (uuid : String) : Prop :=
  if Unkeyed m then s.tickets uuid = none
  else ∀ t, s.tickets (taskId m uuid) = some t → t.origin = none

/-- The ticket after an enqueue: the payload may be the one that was there. -/
def System.stamp (s : System ω) (m : DelayedMessageData) (uuid : String) (t : Ticket) : Ticket :=
  if taskId m uuid ∈ s.store.delayedMessages.members then
    { (if keepsPayload m (taskId m uuid) s.store then
        (s.tickets (taskId m uuid)).getD t else t) with
      contested := true }
  else t

/-- An enqueue, with the ticket of its payload. -/
def System.enqueue (s : System ω) (m : DelayedMessageData) (uuid : String) (t : Ticket)
    (touch : Touch) : System ω :=
  { s with
    store := (enqueueDelayedMessage codec m uuid s.store).2
    tickets := Function.update s.tickets (taskId m uuid) (some (s.stamp m uuid t))
    touches := Function.update s.touches (taskId m uuid) (s.touches (taskId m uuid) ++ [touch]) }

def System.newTicket (s : System ω) (m : DelayedMessageData) : Ticket :=
  ⟨if Unkeyed m then some s.enqueued.length else none, none, false⟩

/-- A producer's enqueue. -/
def System.produce (s : System ω) (m : DelayedMessageData) (uuid : String) : System ω :=
  { s.enqueue codec m uuid (s.newTicket m) (.produced m) with
    enqueued := if Unkeyed m then s.enqueued ++ [m] else s.enqueued }

variable [DecidableEq ω]

def System.goto (s : System ω) (w : ω) (pc : Pc) : System ω :=
  { s with workers := Function.update s.workers w { s.workers w with pc := pc } }

def System.shutdown (s : System ω) (w : ω) : System ω :=
  { s with workers := Function.update s.workers w { s.workers w with shutdownEvent := true } }

/-- What a claimed task id comes back as; a payload that does not validate is dropped. -/
def System.item (s : System ω) (id : String) : Option Claimed := do
  let payload ← s.store.metadata (metadataKey id)
  let message ← codec.load payload
  return ⟨id, (s.tickets id).getD { origin := none }, (s.touches id).length + 1, message⟩

def System.batch (s : System ω) (now : Int) (batchSize : Nat) : List Claimed :=
  ((selected s.store now batchSize).map member).filterMap (s.item codec)

/-- `dequeue_next_delayed_messages(now)` by the worker `w`. -/
def System.claim (s : System ω) (w : ω) (now : Int) (batchSize : Nat) : System ω :=
  { s with
    store := (dequeueNextDelayedMessages codec now batchSize s.store).2
    workers := Function.update s.workers w
      { s.workers w with pc := .dispatching (s.batch codec now batchSize) }
    claims := s.claims ++ (s.batch codec now batchSize).map fun c => (c, now)
    touches := fun id =>
      if id ∈ (selected s.store now batchSize).map member then s.touches id ++ [.claimed]
      else s.touches id }

def System.publish (s : System ω) (w : ω) (c : Claimed) (rest : List Claimed) : System ω :=
  { s with
    published := s.published ++ [c]
    workers := Function.update s.workers w { s.workers w with pc := .dispatching rest } }

/-- The ticket of a message whose dispatch failed at that time. -/
def Claimed.failedTicket (c : Claimed) (failure : ℚ) : Ticket :=
  { origin := c.ticket.origin, failedAt := some (truncate failure) }

/-- The claimed message goes back. -/
def System.putBack (s : System ω) (w : ω) (c : Claimed) (failure time : ℚ) (rest : List Claimed)
    (uuid : String) : System ω :=
  (s.enqueue codec (requeued c.message time) uuid (c.failedTicket failure) .putBack).goto w
    (.dispatching rest)

end Updates

inductive Act (ω : Type) where
  | produces (m : DelayedMessageData) (uuid : String)
  | refused (m : DelayedMessageData)
  | begins (w : ω)
  | claims (w : ω)
  | misses (w : ω)
  | publishes (w : ω)
  | fails (w : ω)
  | putsBack (w : ω) (c : Claimed) (time : ℚ) (uuid : String)
  | loses (w : ω)
  | ends (w : ω)
  | shutsDown (w : ω)

variable {ω : Type}

/-- One step of a producer or of a beat worker. The dispatch times of producers have
doubles, as those computed for a delay, a schedule or a retry do. The clock does not go
back between a failure and the reading that follows it. -/
inductive Step [DecidableEq ω] (codec : Codec) : Act ω → System ω → System ω → Prop
  | produces {s m uuid payload} (hdump : codec.dump m = .ok payload)
      (hfits : Storable m.dispatchTime)
      (hfresh : Fresh s m uuid) :
      Step codec (.produces m uuid) s (s.produce codec m uuid)
  -- the message has no JSON form, or the backend is not reached
  | refused {s} (m : DelayedMessageData) : Step codec (.refused m) s s
  | begins {s w} (time : ℚ) (hreading : Reading time) (h : (s.workers w).pc = .idle)
      (hopen : (s.workers w).shutdownEvent = false) :
      Step codec (.begins w) s (s.goto w (.cycle (truncate time)))
  | claims {s w now} (batchSize : Nat) (h : (s.workers w).pc = .cycle now) :
      Step codec (.claims w) s (s.claim codec w now batchSize)
  -- the dequeue raises, which ends the batch before it began
  | misses {s w now} (h : (s.workers w).pc = .cycle now) :
      Step codec (.misses w) s (s.goto w (.dispatching []))
  | publishes {s w c rest} (h : (s.workers w).pc = .dispatching (c :: rest)) :
      Step codec (.publishes w) s (s.publish w c rest)
  -- the dispatcher sets the event where its retries are used up
  | fails {s w c rest} (time : ℚ) (stops : Bool) (h : (s.workers w).pc = .dispatching (c :: rest)) :
      Step codec (.fails w) s
        (if stops then (s.goto w (.failed c time rest)).shutdown w
          else s.goto w (.failed c time rest))
  | putsBack {s w c failure rest payload} (time : ℚ) (uuid : String)
      (h : (s.workers w).pc = .failed c failure rest) (hreading : Reading time)
        (hclock : failure ≤ time)
      (hdump : codec.dump (requeued c.message time) = .ok payload)
      (hfresh : Fresh s (requeued c.message time) uuid) :
      Step codec (.putsBack w c time uuid) s (s.putBack codec w c failure time rest uuid)
  -- it could not be put back: logged as lost
  | loses {s w c failure rest} (h : (s.workers w).pc = .failed c failure rest) :
      Step codec (.loses w) s (s.goto w (.dispatching rest))
  | ends {s w} (h : (s.workers w).pc = .dispatching []) : Step codec (.ends w) s (s.goto w .idle)
  | shutsDown {s} (w : ω) : Step codec (.shutsDown w) s (s.shutdown w)

/-- A run whose steps all satisfy `P` in the state they start from. -/
def Runs [DecidableEq ω] (codec : Codec) (P : System ω → Act ω → Prop) :
    System ω → System ω → Prop :=
  Relation.ReflTransGen fun s s' => ∃ a, Step codec a s s' ∧ P s a

/-- The message has a JSON form, and it parses back. -/
def Parses (codec : Codec) (m : DelayedMessageData) : Prop :=
  ∃ payload, codec.dump m = .ok payload ∧ codec.load payload = some m

/-- No backend operation fails, and every stored payload parses. -/
def Succeeds (codec : Codec) : Act ω → Prop
  | .produces m _ => Parses codec m
  | .putsBack _ c time _ => Parses codec (requeued c.message time)
  | .refused _ | .misses _ | .loses _ => False
  | _ => True

section Stores

variable (codec : Codec) {m : DelayedMessageData} {payload : Bytes} (uuid : String) (s : Store)

theorem taskId_unkeyed (h : Unkeyed m) : taskId m uuid = uuid := by
  unfold taskId orElse
  obtain h | h := h <;> simp [h]

/-- What a clock reads is stored as it is, also after the delay. -/
theorem Reading.small {time : ℚ} (h : Reading time) :
    |truncate time| ≤ 2 ^ 53 ∧ |truncate time + failedDispatchRequeueDelaySeconds| ≤ 2 ^ 53 := by
  obtain ⟨hlow, hhigh⟩ := abs_le.mp (show |time * 10 ^ 9| ≤ 2 ^ 63 from h)
  have hbelow : truncate time ≤ truncate ((10000000000 : Int) : ℚ) :=
    truncate_mono (by push_cast; linarith)
  have habove : truncate ((-10000000000 : Int) : ℚ) ≤ truncate time :=
    truncate_mono (by push_cast; linarith)
  rw [truncate_intCast] at hbelow habove
  rw [abs_le, abs_le, failedDispatchRequeueDelaySeconds]
  omega

/-- The seconds until the year 2242. -/
theorem reading_small {n : Int} (h : |n| ≤ 2 ^ 33) : Reading (n : ℚ) := by
  obtain ⟨hlow, hhigh⟩ := abs_le.mp h
  have hlow' : (-2 ^ 33 : ℚ) ≤ n := by exact_mod_cast hlow
  have hhigh' : (n : ℚ) ≤ 2 ^ 33 := by exact_mod_cast hhigh
  exact abs_le.mpr ⟨by linarith, by linarith⟩

theorem Reading.storable {time : ℚ} (h : Reading time) (m : DelayedMessageData) :
    Storable (requeued m time).dispatchTime :=
  storable_small h.small.2

theorem enqueue_zset (hdump : codec.dump m = .ok payload) (hfits : Storable m.dispatchTime) :
    (enqueueDelayedMessage codec m uuid s).2.delayedMessages =
      s.delayedMessages.upsert (zaddOption m) (nearestInt m.dispatchTime) (taskId m uuid) := by
  rw [enqueue_run codec m uuid s hdump hfits]

/-- The payload after an enqueue, under its own task id. -/
theorem enqueue_metadata_same (hdump : codec.dump m = .ok payload)
    (hfits : Storable m.dispatchTime) :
    (enqueueDelayedMessage codec m uuid s).2.metadata (metadataKey (taskId m uuid)) =
      if keepsPayload m (taskId m uuid) s then s.metadata (metadataKey (taskId m uuid))
      else some payload := by
  rw [enqueue_run codec m uuid s hdump hfits]
  unfold keepsPayload setMetadata
  split
  · rfl
  · simp

/-- After an enqueue the members are the old ones and the task's id, which is there once. -/
theorem members_enqueue_perm (hdump : codec.dump m = .ok payload)
    (hfits : Storable m.dispatchTime) :
    (enqueueDelayedMessage codec m uuid s).2.delayedMessages.members.Perm
      (if taskId m uuid ∈ s.delayedMessages.members then s.delayedMessages.members
        else taskId m uuid :: s.delayedMessages.members) := by
  rw [enqueue_zset codec uuid s hdump hfits]
  have hold := ZSet.members_nodup s.delayedMessages
  split
  · rename_i hin
    rw [List.perm_ext_iff_of_nodup (ZSet.members_nodup _) hold]
    intro id
    rw [ZSet.members_upsert]
    constructor
    · rintro (rfl | hid)
      · exact hin
      · exact hid
    · exact .inr
  · rename_i hout
    rw [List.perm_ext_iff_of_nodup (ZSet.members_nodup _) (List.nodup_cons.mpr ⟨hout, hold⟩)]
    intro id
    rw [ZSet.members_upsert, List.mem_cons]

variable {s} {now : Int} {batchSize : Nat}

theorem selected_members {id : String} (h : id ∈ (selected s now batchSize).map member) :
    id ∈ s.delayedMessages.members := by
  obtain ⟨e, he, rfl⟩ := List.mem_map.mp h
  exact List.mem_map_of_mem (ZSet.mem_rangeByScore he).1

theorem dequeue_entries {e : Int ×ₗ String} :
    e ∈ (dequeueNextDelayedMessages codec now batchSize s).2.delayedMessages.entries ↔
      e ∈ s.delayedMessages.entries ∧ member e ∉ (selected s now batchSize).map member := by
  change e ∈ (dequeueScript now batchSize s).2.delayedMessages.entries ↔ _
  rw [script_entries]
  constructor
  · rintro ⟨he, hnot⟩
    exact ⟨he, fun hsel => hnot ((mem_selected_iff s now batchSize he).mp hsel)⟩
  · rintro ⟨he, hnot⟩
    exact ⟨he, fun hsel => hnot (List.mem_map_of_mem hsel)⟩

theorem dequeue_members {id : String} :
    id ∈ (dequeueNextDelayedMessages codec now batchSize s).2.delayedMessages.members ↔
      id ∈ s.delayedMessages.members ∧ id ∉ (selected s now batchSize).map member := by
  simp only [ZSet.mem_members, dequeue_entries codec, member_toLex]
  constructor
  · rintro ⟨d, he, hnot⟩
    exact ⟨⟨d, he⟩, hnot⟩
  · rintro ⟨⟨d, he⟩, hnot⟩
    exact ⟨d, he, hnot⟩

/-- The claimed task ids and those that are left make up the old ones. -/
theorem members_dequeue_perm :
    s.delayedMessages.members.Perm ((selected s now batchSize).map member ++
      (dequeueNextDelayedMessages codec now batchSize s).2.delayedMessages.members) := by
  have hnodup : ((selected s now batchSize).map member ++
      (dequeueNextDelayedMessages codec now batchSize s).2.delayedMessages.members).Nodup := by
    refine List.nodup_append.mpr ⟨selected_nodup s now batchSize, ZSet.members_nodup _, ?_⟩
    intro a ha b hb hab
    subst hab
    exact ((dequeue_members codec).mp hb).2 ha
  rw [List.perm_ext_iff_of_nodup (ZSet.members_nodup _) hnodup]
  intro id
  rw [List.mem_append, dequeue_members codec]
  constructor
  · intro hid
    by_cases hsel : id ∈ (selected s now batchSize).map member
    · exact .inl hsel
    · exact .inr ⟨hid, hsel⟩
  · rintro (hsel | ⟨hid, -⟩)
    · exact selected_members hsel
    · exact hid

theorem dequeue_metadata {id : String} (h : id ∉ (selected s now batchSize).map member) :
    (dequeueNextDelayedMessages codec now batchSize s).2.metadata (metadataKey id) =
      s.metadata (metadataKey id) := by
  apply script_untouched
  intro e he heq
  exact h (metadataKey_injective heq ▸ List.mem_map_of_mem he)

end Stores

theorem Fresh.unused {m : DelayedMessageData} {uuid : String} {s : System ω} (h : Fresh s m uuid)
    (hkey : Unkeyed m) : s.tickets (taskId m uuid) = none := by
  rw [taskId_unkeyed uuid hkey]
  rwa [Fresh, if_pos hkey] at h

/-- A message with a key meets only tickets of messages with the same key. -/
theorem Fresh.keyed {m : DelayedMessageData} {uuid : String} {s : System ω} (h : Fresh s m uuid)
    (hkey : ¬Unkeyed m) {old : Ticket} (hold : s.tickets (taskId m uuid) = some old) :
    old.origin = none := by
  rw [Fresh, if_neg hkey] at h
  exact h old hold

@[simp] theorem goto_pc [DecidableEq ω] (s : System ω) (w v : ω) (pc : Pc) :
    ((s.goto w pc).workers v).pc = if v = w then pc else (s.workers v).pc := by
  by_cases hv : v = w
  · subst hv
    simp [System.goto]
  · simp [System.goto, hv]

@[simp] theorem shutdown_pc [DecidableEq ω] (s : System ω) (w v : ω) :
    ((s.shutdown w).workers v).pc = (s.workers v).pc := by
  by_cases hv : v = w
  · subst hv
    simp [System.shutdown]
  · simp [System.shutdown, hv]

/-- After a claim the worker dispatches its batch. -/
theorem claim_pc [DecidableEq ω] (codec : Codec) (s : System ω) (w : ω) (now : Int)
    (batchSize : Nat) :
    ((s.claim codec w now batchSize).workers w).pc =
      .dispatching (s.batch codec now batchSize) := by
  simp [System.claim]

theorem item_eq_some {codec : Codec} {s : System ω} {id : String} {c : Claimed}
    (h : s.item codec id = some c) :
    c.taskId = id ∧ c.ticket = (s.tickets id).getD { origin := none } ∧
      c.seen = (s.touches id).length + 1 ∧
      ∃ payload, s.store.metadata (metadataKey id) = some payload ∧
        codec.load payload = some c.message := by
  unfold System.item at h
  cases hmeta : s.store.metadata (metadataKey id) with
  | none => simp [hmeta] at h
  | some payload =>
    cases hload : codec.load payload with
    | none => simp [hmeta, hload] at h
    | some m =>
      simp only [hmeta, hload, Option.bind_eq_bind, Option.bind_some, Option.pure_def,
        Option.some.injEq] at h
      subst h
      exact ⟨rfl, rfl, rfl, payload, rfl, hload⟩

/-- The batch is what the dequeue returns, message by message. -/
theorem batch_messages (codec : Codec) (s : System ω) (now : Int) (batchSize : Nat) :
    (s.batch codec now batchSize).map Claimed.message =
      (dequeueNextDelayedMessages codec now batchSize s.store).1 := by
  have hscript : dequeueScript now batchSize s.store =
      claimLoop ((selected s.store now batchSize).map member) s.store := rfl
  have hitem : ∀ id, (s.item codec id).map Claimed.message =
      (s.store.metadata (metadataKey id)).bind codec.load := by
    intro id
    unfold System.item
    cases s.store.metadata (metadataKey id) with
    | none => rfl
    | some payload => cases hload : codec.load payload <;> simp [hload]
  rw [dequeueNextDelayedMessages, hscript, claimLoop_run _ (selected_nodup s.store now batchSize),
    System.batch, List.map_filterMap, List.filterMap_filterMap]
  congr 1
  funext id
  exact hitem id

section Single

variable {codec : Codec} {m : DelayedMessageData} {payload : Bytes}

/-- An enqueue into an empty store. -/
theorem enqueue_empty (hdump : codec.dump m = .ok payload) (hsmall : |m.dispatchTime| ≤ 2 ^ 53)
    (uuid : String)
    {s : Store}
    (hempty : s.delayedMessages.entries = []) :
    (enqueueDelayedMessage codec m uuid s).2.delayedMessages.entries =
      [toLex (m.dispatchTime, taskId m uuid)] := by
  have hnew : taskId m uuid ∉ s.delayedMessages.members := by simp [ZSet.members, hempty]
  rw [enqueue_zset codec uuid s hdump (storable_small hsmall), nearestInt_eq hsmall,
    ZSet.upsert_new hnew,
    ZSet.add_only (by simp [hempty])]

/-- A dequeue from a store with one due entry takes it. -/
theorem dequeue_only (codec : Codec) {s : Store} {d now : Int} {id : String}
    (hentries : s.delayedMessages.entries = [toLex (d, id)]) (hdue : d ≤ nearestInt now) :
    (selected s now 1).map member = [id] ∧
      (dequeueNextDelayedMessages codec now 1 s).2.delayedMessages.entries = [] ∧
      (dequeueNextDelayedMessages codec now 1 s).2.metadata (metadataKey id) = none := by
  have hsel : selected s now 1 = [toLex (d, id)] := by
    rw [selected_single hentries]
    exact if_pos ⟨hdue, le_refl 1⟩
  have hscript : dequeueScript now 1 s = claimLoop [id] s := by
    rw [dequeueScript, hsel]
    rfl
  refine ⟨by rw [hsel]; rfl, ?_, ?_⟩
  · rw [dequeueNextDelayedMessages, hscript]
    simp [claimLoop, ZSet.remove, ZSet.keep, hentries]
  · rw [dequeueNextDelayedMessages, hscript]
    simp [claimLoop]

/-- From a store with one due entry the batch is that entry. -/
theorem batch_only {s : System ω} {d now : Int} {id : String}
    (hentries : s.store.delayedMessages.entries = [toLex (d, id)]) (hdue : d ≤ nearestInt now)
    (hmeta : s.store.metadata (metadataKey id) = some payload)
    (hload : codec.load payload = some m) :
    s.batch codec now 1 = [⟨id, (s.tickets id).getD { origin := none },
      (s.touches id).length + 1, m⟩] := by
  rw [System.batch, (dequeue_only codec hentries hdue).1]
  simp [System.item, hmeta, hload]

variable [DecidableEq ω]

/-- A producer enqueues one message, and the worker `w` claims it at its dispatch time. -/
def firstClaim (codec : Codec) (m : DelayedMessageData) (uuid : String) (w : ω) : System ω :=
  ((System.start.produce codec m uuid).goto w (.cycle m.dispatchTime)).claim codec w
    m.dispatchTime 1

/-- The message as `firstClaim` hands it to the worker. -/
def firstClaimed (m : DelayedMessageData) (uuid : String) : Claimed :=
  ⟨taskId m uuid, { origin := if Unkeyed m then some 0 else none }, 2, m⟩

variable (hdump : codec.dump m = .ok payload) (hload : codec.load payload = some m)
  (hreading : Reading (m.dispatchTime : ℚ)) (uuid : String) (w : ω)
include hreading

omit [DecidableEq ω] in
theorem Reading.whole : |m.dispatchTime| ≤ 2 ^ 53 := by
  simpa only [truncate_intCast] using hreading.small.1

omit [DecidableEq ω] in
/-- A message is due at its own dispatch time. -/
theorem Reading.due : m.dispatchTime ≤ nearestInt m.dispatchTime :=
  (nearestInt_eq hreading.whole).ge

include hdump

omit [DecidableEq ω] in
theorem firstProduced_entries :
    ((System.start : System ω).produce codec m uuid).store.delayedMessages.entries =
      [toLex (m.dispatchTime, taskId m uuid)] :=
  enqueue_empty hdump hreading.whole uuid rfl

theorem firstClaim_store :
    (firstClaim codec m uuid w).store.delayedMessages.entries = [] ∧
      (firstClaim codec m uuid w).store.metadata (metadataKey (taskId m uuid)) = none :=
  (dequeue_only codec (firstProduced_entries (ω := ω) hdump hreading uuid) hreading.due).2

theorem firstClaim_touches :
    (firstClaim codec m uuid w).touches (taskId m uuid) = [.produced m, .claimed] := by
  have hsel :=
    (dequeue_only codec (firstProduced_entries (ω := ω) hdump hreading uuid) hreading.due).1
  change (if taskId m uuid ∈ (selected ((System.start : System ω).produce codec m uuid).store
    m.dispatchTime 1).map member then _ else _) = _
  rw [hsel, if_pos (List.mem_singleton_self _)]
  simp [System.goto, System.produce, System.enqueue, System.start]

omit hdump hreading in
theorem firstClaim_tickets :
    (firstClaim codec m uuid w).tickets (taskId m uuid) = some (firstClaimed m uuid).ticket := by
  simp [firstClaim, System.claim, System.goto, System.produce, System.enqueue, System.stamp,
    System.start,
    Store.empty, ZSet.empty, ZSet.members, System.newTicket, firstClaimed]

omit hdump hreading in
theorem firstClaim_unused {id : String} (hid : id ≠ taskId m uuid) :
    (firstClaim codec m uuid w).tickets id = none := by
  simp [firstClaim, System.claim, System.goto, System.produce, System.enqueue, System.start, hid]

omit hdump hreading in
theorem firstClaim_other {v : ω} (hv : v ≠ w) : (firstClaim codec m uuid w).workers v = {} := by
  simp [firstClaim, System.claim, System.goto, System.produce, System.enqueue, System.start, hv]

include hload

theorem firstClaim_pc :
    ((firstClaim codec m uuid w).workers w).pc = .dispatching [firstClaimed m uuid] := by
  have hmeta : ((System.start : System ω).produce codec m uuid).store.metadata
      (metadataKey (taskId m uuid)) = some payload := by
    have hsame := enqueue_metadata_same codec uuid Store.empty hdump (storable_small hreading.whole)
    have hkeeps : keepsPayload m (taskId m uuid) Store.empty =
        false := by simp [keepsPayload, Store.empty]
    rw [hkeeps] at hsame
    exact hsame
  have hbatch := batch_only (s := ((System.start : System ω).produce codec m uuid).goto w
    (.cycle m.dispatchTime)) (firstProduced_entries (ω := ω) hdump hreading uuid)
    hreading.due hmeta hload
  simp only [firstClaim, System.claim, Function.update_self, hbatch]
  simp [System.goto, System.produce, System.enqueue, System.stamp, System.start,
    Store.empty, ZSet.empty,
    ZSet.members, System.newTicket, firstClaimed]

omit hload in
/-- The steps of `firstClaim`. -/
theorem firstClaim_run {P : System ω → Act ω → Prop} (hproduces : ∀ s, P s (.produces m uuid))
    (hbegins : ∀ s, P s (.begins w)) (hclaims : ∀ s, P s (.claims w)) :
    Runs codec P System.start (firstClaim codec m uuid w) := by
  have hfresh : Fresh (System.start : System ω) m uuid := by
    unfold Fresh
    split
    · rfl
    · intro t ht
      cases ht
  have hproduced : Step codec (.produces m uuid) System.start
      ((System.start : System ω).produce codec m uuid) :=
    .produces hdump (storable_small hreading.whole) hfresh
  have hbegun : Step codec (.begins w) ((System.start : System ω).produce codec m uuid)
      (((System.start : System ω).produce codec m uuid).goto w (.cycle m.dispatchTime)) := by
    have hstep : Step codec (.begins w) ((System.start : System ω).produce codec m uuid) _ :=
      .begins (m.dispatchTime : ℚ) hreading rfl rfl
    rwa [truncate_intCast] at hstep
  have hclaimed : Step codec (.claims w)
      (((System.start : System ω).produce codec m uuid).goto w (.cycle m.dispatchTime))
      (firstClaim codec m uuid w) := .claims 1 (by simp)
  exact ((Relation.ReflTransGen.single ⟨_, hproduced, hproduces _⟩).tail
    ⟨_, hbegun, hbegins _⟩).tail ⟨_, hclaimed, hclaims _⟩

end Single

/-- Digests that share one idempotency key. -/
def digest (dispatchTime : Int) (body : String) (payloadPolicy : PayloadPolicy)
    (timePolicy : TimePolicy) :
    DelayedMessageData where
  messageTopic := "user.digest"
  idempotencyKey := some "daily"
  dispatchTime := dispatchTime
  payload := body.toUTF8.toList
  payloadPolicy := payloadPolicy
  timePolicy := timePolicy

def keyJson : Option String → String
  | none => "null"
  | some key => "\"" ++ key ++ "\""

def payloadPolicyJson : PayloadPolicy → String
  | .ignore => "ignore"
  | .replace => "replace"

def timePolicyJson : TimePolicy → String
  | .replace => "replace"
  | .greater => "greater"
  | .lesser => "lesser"

/-- The JSON text of a message with a plain ASCII payload and no further options. -/
def json (m : DelayedMessageData) : Bytes :=
  ("\x7b\"message_topic\":\"" ++ m.messageTopic ++ "\",\"idempotency_key\":" ++
    keyJson m.idempotencyKey ++
    ",\"dispatch_time\":" ++ toString m.dispatchTime ++ ",\"payload\":\"" ++
    String.ofList (m.payload.map fun b => Char.ofNat b.toNat) ++
    "\",\"headers\":null,\"target_queue\":null,\"message_id\":null,\"content_type\":null," ++
    "\"payload_policy\":\"" ++ payloadPolicyJson m.payloadPolicy ++ "\",\"time_policy\":\"" ++
    timePolicyJson m.timePolicy ++ "\",\"content_encoding\":null\x7d").toUTF8.toList

theorem toDigits_digit {n : Nat} {c : Char} (hc : c ∈ Nat.toDigits 10 n) : c.isDigit = true :=
  Nat.isDigit_of_mem_toDigits (by decide) (by decide) hc

theorem toDigits_injective : Function.Injective (Nat.toDigits 10) := by
  intro m n heq
  rw [← Nat.ofDigitChars_ten_toDigits (n := m), heq, Nat.ofDigitChars_ten_toDigits]

theorem toString_ofNat (n : Nat) : (toString (Int.ofNat n)).toList = Nat.toDigits 10 n := by
  simp [toString, Int.repr, Nat.repr]

theorem toString_negSucc (n : Nat) :
    (toString (Int.negSucc n)).toList = '-' :: Nat.toDigits 10 (n + 1) := by
  simp [toString, Int.repr, Nat.repr]

theorem toString_no_comma (i : Int) : ',' ∉ (toString i).toList := by
  have hdigits : ∀ n, ',' ∉ Nat.toDigits 10 n := fun n hc => by simpa using toDigits_digit hc
  cases i with
  | ofNat n => simpa only [toString_ofNat] using hdigits n
  | negSucc n =>
    rw [toString_negSucc]
    exact List.not_mem_cons_of_ne_of_not_mem (by decide) (hdigits (n + 1))

/-- Different integers have different texts. -/
theorem toString_int_injective : Function.Injective (toString : Int → String) := by
  have hminus : ∀ (n : Nat) (l : List Char), Nat.toDigits 10 n ≠ '-' :: l := fun n l heq => by
    simpa using toDigits_digit (heq ▸ List.mem_cons_self : '-' ∈ Nat.toDigits 10 n)
  intro i j heq
  have hlist := congrArg String.toList heq
  cases i with
  | ofNat m =>
    cases j with
    | ofNat n =>
      rw [toString_ofNat, toString_ofNat] at hlist
      rw [toDigits_injective hlist]
    | negSucc n =>
      rw [toString_ofNat, toString_negSucc] at hlist
      exact absurd hlist (hminus _ _)
  | negSucc m =>
    cases j with
    | ofNat n =>
      rw [toString_ofNat, toString_negSucc] at hlist
      exact absurd hlist.symm (hminus _ _)
    | negSucc n =>
      rw [toString_negSucc, toString_negSucc, List.cons.injEq] at hlist
      rw [Nat.succ.inj (toDigits_injective hlist.2)]

/-- Texts that agree are the same up to their first comma. -/
theorem before_comma {s t s' t' : String} (h : s ++ ("," ++ t) = s' ++ ("," ++ t'))
    (hs : ',' ∉ s.toList)
    (hs' : ',' ∉ s'.toList) : s = s' := by
  have hbefore : ∀ u v : String, ',' ∉ u.toList →
      (u ++ ("," ++ v)).toList.takeWhile (fun c => decide (c ≠ ',')) = u.toList := by
    intro u v hu
    have hne : ∀ c ∈ u.toList, decide (c ≠ ',') = true :=
      fun c hc => decide_eq_true fun heq => hu (heq ▸ hc)
    rw [String.toList_append, List.takeWhile_append_of_pos hne]
    simp
  have htake := congrArg (fun u : String => u.toList.takeWhile fun c => decide (c ≠ ',')) h
  simp only [hbefore _ _ hs, hbefore _ _ hs'] at htake
  exact String.toList_inj.1 htake

theorem dispatchTime_of_json {m m' : DelayedMessageData} (htopic : m.messageTopic = m'.messageTopic)
    (hkey : m.idempotencyKey = m'.idempotencyKey) (h : json m = json m') :
    m.dispatchTime = m'.dispatchTime := by
  have htext := utf8_injective h
  have hcomma : ",\"payload\":\"" = "," ++ "\"payload\":\"" := by rfl
  simp only [htopic, hkey, hcomma, String.append_assoc, String.append_right_inj] at htext
  exact toString_int_injective (before_comma htext (toString_no_comma _) (toString_no_comma _))

/-- Messages of one topic and key that differ in their times differ in their texts. -/
theorem json_nodup (topic : String) (key : Option String) {known : List DelayedMessageData}
    (hsame : ∀ m ∈ known, m.messageTopic = topic ∧ m.idempotencyKey = key)
    (htimes : (known.map DelayedMessageData.dispatchTime).Nodup) : (known.map json).Nodup := by
  refine List.Nodup.map_on ?_ ?_
  · intro m hm m' hm' heq
    obtain ⟨htopic, hkey⟩ := hsame m hm
    obtain ⟨htopic', hkey'⟩ := hsame m' hm'
    exact List.inj_on_of_nodup_map htimes hm hm'
      (dispatchTime_of_json (htopic.trans htopic'.symm) (hkey.trans hkey'.symm) heq)
  · exact List.Nodup.of_map _ htimes

/-- Pydantic on some messages that are known beforehand. -/
def jsonCodec (known : List DelayedMessageData) : Codec where
  dump m := .ok (json m)
  load payload := known.find? fun m => decide (json m = payload)

/-- The codec reads back every message it knows. -/
theorem jsonCodec_load {known : List DelayedMessageData} (hnodup : (known.map json).Nodup)
    {m : DelayedMessageData} (hm : m ∈ known) : (jsonCodec known).load (json m) = some m := by
  change known.find? (fun m' => decide (json m' = json m)) = some m
  induction known with
  | nil => cases hm
  | cons first known ih =>
    obtain ⟨hnot, hnodup⟩ := List.nodup_cons.mp hnodup
    obtain rfl | hm := List.mem_cons.mp hm
    · simp
    · have hne : json first ≠ json m := by
        intro heq
        rw [heq] at hnot
        exact hnot (List.mem_map_of_mem hm)
      rw [List.find?_cons_of_neg (by simpa using hne)]
      exact ih hnodup hm

end DelayedDispatch

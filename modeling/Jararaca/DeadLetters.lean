import Mathlib.Data.List.Infix
import Mathlib.Data.List.TakeWhile
import Jararaca.RetryLineage

/-!
# The commands on the dead letter queue

`dlq stats`, `dlq list` and `dlq requeue` of cli.py. A command takes the first message of the
queue, over and over; what it gives back with `nack(requeue=True)` is in the queue again when
it takes the next one. A round is one turn of a loop, with what the outside does in it.
-/
namespace DeadLetters

open Messages (Bytes)
open RetryLineage (truthy)

/-! ## Messages -/

/-- The `count` of a death: a number, as `int` makes it whole, or anything else. -/
inductive CountValue where
  | number (n : Int)
  | other
  deriving DecidableEq, Repr

/-- An entry of `x-death`; `time` is none where it is missing or falsy. -/
structure Death where
  queue : Option String
  reason : Option String
  count : Option CountValue
  time : Option String
  deriving DecidableEq, Repr

inductive DeathEntry where
  | table (d : Death)
  | other
  deriving DecidableEq, Repr

/-- A message as aio-pika hands it over; `xDeath` is none where the header is no list. -/
structure RawMessage where
  body : Bytes
  routingKey : Option String
  xDeath : Option (List DeathEntry)
  messageId : Option String
  contentType : Option String
  deriving DecidableEq, Repr

structure DLQMessage where
  body : Bytes
  routingKey : String
  originalQueue : String
  deathReason : String
  deathCount : Int
  firstDeathTime : String
  messageId : Option String
  contentType : Option String
  deriving DecidableEq, Repr

/-- `x_death_raw[0]`, where it is a dict. -/
def RawMessage.death (raw : RawMessage) : Option Death :=
  match raw.xDeath with
  | some (.table d :: _) => some d
  | _ => none

def deathCount : Option CountValue → Int
  | none => 1
  | some (.number n) => n
  | some .other => 0

/-- What `fetch_dlq_messages` makes of a message. -/
def dlqMessage (raw : RawMessage) : DLQMessage where
  body := raw.body
  routingKey := raw.routingKey.getD ""
  originalQueue := (raw.death.map fun d => d.queue.getD "unknown").getD ""
  deathReason := (raw.death.map fun d => d.reason.getD "unknown").getD ""
  deathCount := (raw.death.map fun d => deathCount d.count).getD 0
  firstDeathTime := (raw.death.bind Death.time).getD ""
  messageId := raw.messageId
  contentType := raw.contentType

/-- The original queue as `dlq requeue` reads it, with another default. -/
def originalQueue (raw : RawMessage) : String := (raw.death.map fun d => d.queue.getD "").getD ""

/-- `aio_pika.Message` with its routing key; the one header is `x-requeued-from-dlq`. -/
structure Publication where
  body : Bytes
  contentType : Option String
  headers : List (String × Bool)
  routingKey : String
  deriving DecidableEq, Repr

def requeuePublication (raw : RawMessage) : Publication where
  body := raw.body
  contentType := raw.contentType
  headers := [("x-requeued-from-dlq", true)]
  routingKey := (truthy raw.routingKey).getD (originalQueue raw)

/-! ## The loops -/

/-- What is given: the options of the commands, the answer to the question, whether the exchange
of the URL is declared, `str.lower`, where a message that is given back stands in the queue, and
whether `queue.get` raises on an empty queue or returns None. -/
structure Setting where
  exchange : Option String
  exchangeDeclared : Bool
  queueFilter : Option String
  limit : Option Int
  force : Bool
  confirm : Bool
  lower : String → String
  putBack : RawMessage → List RawMessage → List RawMessage
  emptyRaises : Bool

/-- What the outside does in a round: messages that are dead-lettered meanwhile, a `get` that
times out, and whether publish, ack and nack succeed. -/
structure Round where
  arrivals : List RawMessage
  timeout : Bool
  publish : Bool
  ack : Bool
  nack : Bool

/-- Nothing arrives and nothing fails. -/
def Round.quiet : Round := ⟨[], false, true, true, true⟩

/-- `limit is not None and count >= limit`. -/
def reached (limit : Option Int) (count : Nat) : Bool :=
  match limit with
  | none => false
  | some l => decide (l ≤ count)

/-- A run of `fetch_dlq_messages`: `held` are taken and not given back, `result` tells how it
ended, by returning or by raising. -/
structure Fetch where
  queue : List RawMessage
  held : List RawMessage := []
  messages : List DLQMessage := []
  result : Option Bool := none

/-- The channel is closed, and what was neither acked nor given back is in the queue again. -/
def Fetch.close (returned : Bool) (s : Fetch) : Fetch :=
  { s with queue := s.held ++ s.queue, held := [], result := some returned }

variable (e : Setting)

/-- One turn of the loop of `fetch_dlq_messages`. -/
def fetchRound (limit : Option Int) (consume : Bool) (s : Fetch) (r : Round) : Fetch :=
  let s := { s with queue := s.queue ++ r.arrivals }
  if s.result.isSome then s
  else if reached limit s.messages.length || r.timeout then s.close true
  else match s.queue with
    | [] => s.close (!e.emptyRaises)
    | m :: rest =>
      let messages := s.messages ++ [dlqMessage m]
      if consume then { s with queue := rest, held := s.held ++ [m], messages := messages }
      else
        let s := { s with queue := e.putBack m rest, messages := messages }
        if r.nack then s else s.close false

/-- `queue_filter.lower() in queue.lower()`, where there is a filter. -/
def passes (queue : String) : Bool :=
  match truthy e.queueFilter with
  | none => true
  | some f => decide ((e.lower f).toList <:+: (e.lower queue).toList)

inductive Ending where
  | noExchange
  | empty
  | noMatch
  | cancelled
  | complete
  | raised
  deriving DecidableEq, Repr

inductive Phase where
  | preview
  | requeue
  | ended (how : Ending)
  deriving DecidableEq, Repr

/-- `dlq requeue` under way. What was published and what was acked is kept with its message. -/
structure Command where
  queue : List RawMessage
  phase : Phase
  preview : List DLQMessage := []
  published : List (RawMessage × Publication) := []
  acked : List RawMessage := []
  requeued : Nat := 0
  errors : Nat := 0
  count : Nat := 0

def start (queue : List RawMessage) : Command :=
  { queue := queue
    phase := match truthy e.exchange with
      | none => .ended .noExchange
      | some _ => if queue.isEmpty then .ended .empty else .preview }

/-- Between the preview and the loop. -/
def afterPreview (s : Command) : Phase :=
  if (s.preview.filter fun m => passes e m.originalQueue).isEmpty then .ended .noMatch
  else if !(e.force || e.confirm) then .ended .cancelled
  else if e.exchangeDeclared then .requeue
  else .ended .raised

def previewRound (s : Command) (r : Round) : Command :=
  let f := fetchRound e e.limit false { queue := s.queue, messages := s.preview } r
  let s := { s with queue := f.queue, preview := f.messages }
  match f.result with
  | none => s
  | some true => { s with phase := afterPreview e s }
  | some false => { s with phase := .ended .raised }

/-- `nack(requeue=True)`: if it raises, so does the command, and the broker takes the message
back all the same. -/
def giveBack (m : RawMessage) (rest : List RawMessage) (nack : Bool) (s : Command) : Command :=
  let s := { s with queue := e.putBack m rest }
  if nack then s else { s with phase := .ended .raised }

/-- The except clause: given back, and counted. -/
def countError (m : RawMessage) (rest : List RawMessage) (nack : Bool) (s : Command) : Command :=
  let s := giveBack e m rest nack s
  if nack then { s with errors := s.errors + 1, count := s.count + 1 } else s

/-- One turn of the loop of `run_requeue`. -/
def requeueRound (s : Command) (r : Round) : Command :=
  let s := { s with queue := s.queue ++ r.arrivals }
  if reached e.limit s.count || r.timeout then { s with phase := .ended .complete }
  else match s.queue with
    | [] => { s with phase := .ended (if e.emptyRaises then .raised else .complete) }
    | m :: rest =>
      if !passes e (originalQueue m) then giveBack e m rest r.nack s
      else if !r.publish then countError e m rest r.nack s
      else
        let s := { s with published := s.published ++ [(m, requeuePublication m)] }
        if r.ack then
          { s with
            queue := rest, acked := s.acked ++ [m]
            requeued := s.requeued + 1, count := s.count + 1 }
        else countError e m rest r.nack s

def step (s : Command) (r : Round) : Command :=
  match s.phase with
  | .preview => previewRound e s r
  | .requeue => requeueRound e s r
  | .ended _ => { s with queue := s.queue ++ r.arrivals }

def run (s : Command) (rounds : List Round) : Command := rounds.foldl (step e) s

def Phase.isEnded : Phase → Bool
  | .ended _ => true
  | _ => false

/-- What is given back is in the queue again, somewhere. -/
def KeepsMessages : Prop := ∀ m rest, (e.putBack m rest).Perm (m :: rest)

/-! ## What a round can do -/

/-- What a round leaves of the messages: all of them, all of them and one published besides, or
all but one, which was published and acked. -/
inductive Effect (s : Command) (r : Round) (s' : Command) : Prop where
  | idle (queue : s'.queue.Perm (s.queue ++ r.arrivals)) (published : s'.published = s.published)
      (acked : s'.acked = s.acked) (requeued : s'.requeued = s.requeued)
  | copied (m : RawMessage) (queue : s'.queue.Perm (s.queue ++ r.arrivals)) (ack : r.ack = false)
      (passed : passes e (originalQueue m) = true)
      (published : s'.published = s.published ++ [(m, requeuePublication m)])
      (acked : s'.acked = s.acked) (requeued : s'.requeued = s.requeued)
  | moved (m : RawMessage) (queue : (s'.queue ++ [m]).Perm (s.queue ++ r.arrivals))
      (passed : passes e (originalQueue m) = true)
      (published : s'.published = s.published ++ [(m, requeuePublication m)])
      (acked : s'.acked = s.acked ++ [m]) (requeued : s'.requeued = s.requeued + 1)

variable {e}

/-- A fetch that gives back what it takes has all messages in the queue after every round. -/
theorem fetchRound_queue (hkeep : KeepsMessages e) (limit : Option Int) {s : Fetch}
    (hheld : s.held = [])
    (r : Round) :
    (fetchRound e limit false s r).queue.Perm (s.queue ++ r.arrivals) ∧
      (fetchRound e limit false s r).held = [] := by
  unfold fetchRound
  simp only [Bool.false_eq_true, if_false]
  split
  · exact ⟨List.Perm.refl _, hheld⟩
  · split
    · simp [Fetch.close, hheld]
    · split
      · rename_i hqueue
        simp [Fetch.close, hheld, hqueue]
      · rename_i m rest hqueue
        rw [hqueue]
        split
        · exact ⟨hkeep m rest, hheld⟩
        · simp [Fetch.close, hheld, hkeep m rest]

theorem previewRound_idle (hkeep : KeepsMessages e) (s : Command) (r : Round) :
    Effect e s r (previewRound e s r) := by
  have hqueue := (fetchRound_queue hkeep e.limit
    (s := { queue := s.queue, messages := s.preview }) rfl r).1
  unfold previewRound
  simp only
  split
  · exact .idle hqueue rfl rfl rfl
  · exact .idle hqueue rfl rfl rfl
  · exact .idle hqueue rfl rfl rfl

@[simp] theorem giveBack_published (m : RawMessage) (rest : List RawMessage) (nack : Bool)
    (s : Command) :
    (giveBack e m rest nack s).published = s.published := by unfold giveBack; split <;> rfl
@[simp] theorem giveBack_acked (m : RawMessage) (rest : List RawMessage) (nack : Bool)
    (s : Command) :
    (giveBack e m rest nack s).acked = s.acked := by unfold giveBack; split <;> rfl
@[simp] theorem giveBack_requeued (m : RawMessage) (rest : List RawMessage) (nack : Bool)
    (s : Command) :
    (giveBack e m rest nack s).requeued = s.requeued := by unfold giveBack; split <;> rfl
@[simp] theorem giveBack_queue (m : RawMessage) (rest : List RawMessage) (nack : Bool)
    (s : Command) :
    (giveBack e m rest nack s).queue = e.putBack m rest := by unfold giveBack; split <;> rfl
@[simp] theorem countError_published (m : RawMessage) (rest : List RawMessage) (nack : Bool)
    (s : Command) :
    (countError e m rest nack s).published = s.published := by unfold countError; split <;> simp
@[simp] theorem countError_acked (m : RawMessage) (rest : List RawMessage) (nack : Bool)
    (s : Command) :
    (countError e m rest nack s).acked = s.acked := by unfold countError; split <;> simp
@[simp] theorem countError_requeued (m : RawMessage) (rest : List RawMessage) (nack : Bool)
    (s : Command) :
    (countError e m rest nack s).requeued = s.requeued := by unfold countError; split <;> simp
@[simp] theorem countError_queue (m : RawMessage) (rest : List RawMessage) (nack : Bool)
    (s : Command) :
    (countError e m rest nack s).queue = e.putBack m rest := by unfold countError; split <;> simp

/-- What one round does: nothing, or the head of the queue is taken, published and settled. -/
theorem requeueRound_effect (hkeep : KeepsMessages e) (s : Command) (r : Round) :
    Effect e s r (requeueRound e s r) := by
  unfold requeueRound
  simp only
  split
  · exact .idle (List.Perm.refl _) rfl rfl rfl
  · split
    · exact .idle (List.Perm.refl _) rfl rfl rfl
    · rename_i m rest hqueue
      have hback : (e.putBack m rest).Perm (s.queue ++ r.arrivals) := hqueue ▸ hkeep m rest
      split
      · refine .idle ?_ ?_ ?_ ?_ <;> simp [hback]
      · rename_i hpass
        have hpass : passes e (originalQueue m) = true := by simpa using hpass
        split
        · refine .idle ?_ ?_ ?_ ?_ <;> simp [hback]
        · split
          · refine .moved m ?_ hpass rfl rfl rfl
            rw [hqueue]
            exact List.perm_append_comm
          · rename_i hack
            refine .copied m ?_ (by simpa using hack) hpass ?_ ?_ ?_ <;> simp [hback]

theorem step_effect (hkeep : KeepsMessages e) (s : Command) (r : Round) :
    Effect e s r (step e s r) := by
  unfold step
  split
  · exact previewRound_idle hkeep s r
  · exact requeueRound_effect hkeep s r
  · exact .idle (List.Perm.refl _) rfl rfl rfl

/-! ## No message is lost -/

def arrived (rounds : List Round) : List RawMessage := rounds.flatMap Round.arrivals

/-- Of all messages there ever were, those not acked are in the queue; those acked were published
before, as they are, and counted; and where every ack succeeded, nothing else was published. -/
structure Conserved (e : Setting) (messages : List RawMessage) (acks : Prop)
    (s : Command) : Prop where
  kept : (s.queue ++ s.acked).Perm messages
  counted : s.requeued = s.acked.length
  sent : ∀ x ∈ s.published, x.2 = requeuePublication x.1 ∧ passes e (originalQueue x.1) = true
  acked : s.acked.Sublist (s.published.map Prod.fst)
  once : acks → s.published.map Prod.fst = s.acked

/-- One round conserves the messages: what leaves the dead letter queue is published, put back or
dropped with an acknowledgement. -/
theorem Conserved.effect {messages : List RawMessage} {acks : Prop} {s s' : Command} {r : Round}
    (h : Conserved e messages acks s) (heffect : Effect e s r s') :
    Conserved e (messages ++ r.arrivals) (acks ∧ r.ack = true) s' := by
  have hpast : (s.queue ++ r.arrivals ++ s.acked).Perm (messages ++ r.arrivals) := by
    calc (s.queue ++ r.arrivals ++ s.acked).Perm (s.queue ++ (s.acked ++ r.arrivals)) := by
          rw [List.append_assoc]
          exact List.perm_append_comm.append_left _
      _ = s.queue ++ s.acked ++ r.arrivals := (List.append_assoc ..).symm
      List.Perm _ (messages ++ r.arrivals) := h.kept.append_right _
  cases heffect with
  | idle queue published acked requeued =>
    constructor
    · rw [acked]
      exact (queue.append_right _).trans hpast
    · rw [requeued, acked, h.counted]
    · rw [published]
      exact h.sent
    · rw [published, acked]
      exact h.acked
    · rw [published, acked]
      exact fun hacks => h.once hacks.1
  | copied m queue ack passed published acked requeued =>
    constructor
    · rw [acked]
      exact (queue.append_right _).trans hpast
    · rw [requeued, acked, h.counted]
    · rw [published]
      intro x hx
      obtain hx | hx := List.mem_append.mp hx
      · exact h.sent x hx
      · rw [List.mem_singleton.mp hx]
        exact ⟨rfl, passed⟩
    · rw [published, acked, List.map_append]
      exact h.acked.trans (List.sublist_append_left _ _)
    · intro hacks
      rw [ack] at hacks
      exact absurd hacks.2 (by decide)
  | moved m queue passed published acked requeued =>
    constructor
    · rw [acked]
      calc (s'.queue ++ (s.acked ++ [m])).Perm (s'.queue ++ ([m] ++ s.acked)) :=
            List.perm_append_comm.append_left _
        _ = s'.queue ++ [m] ++ s.acked := (List.append_assoc ..).symm
        List.Perm _ (s.queue ++ r.arrivals ++ s.acked) := queue.append_right _
        List.Perm _ (messages ++ r.arrivals) := hpast
    · rw [requeued, acked, h.counted]
      simp
    · rw [published]
      intro x hx
      obtain hx | hx := List.mem_append.mp hx
      · exact h.sent x hx
      · rw [List.mem_singleton.mp hx]
        exact ⟨rfl, passed⟩
    · rw [published, acked, List.map_append]
      exact h.acked.append (List.Sublist.refl _)
    · intro hacks
      rw [published, acked, List.map_append, h.once hacks.1]
      rfl

/-- Any number of rounds conserves them. -/
theorem Conserved.run {messages : List RawMessage} {acks : Prop} (hkeep : KeepsMessages e)
    {s : Command}
    (h : Conserved e messages acks s) (rounds : List Round) :
    Conserved e (messages ++ arrived rounds) (acks ∧ ∀ r ∈ rounds, r.ack = true)
      (run e s rounds) := by
  induction rounds generalizing s messages acks with
  | nil => simpa [arrived, DeadLetters.run] using h
  | cons r rounds ih =>
    have hrest := ih (h.effect (step_effect hkeep s r))
    simpa [arrived, DeadLetters.run, and_assoc] using hrest

/-- However the rounds of `dlq requeue` go: no message is lost and none is published twice but
after a failed ack. -/
theorem requeue_conserves (hkeep : KeepsMessages e) (queue : List RawMessage)
    (rounds : List Round) :
    Conserved e (queue ++ arrived rounds) (∀ r ∈ rounds, r.ack = true)
      (run e (start e queue) rounds) := by
  have hstart : Conserved e queue True (start e queue) := by
    constructor
    · simp [start]
    · rfl
    · exact fun x hx => absurd hx List.not_mem_nil
    · exact List.Sublist.refl _
    · exact fun _ => rfl
  simpa using hstart.run hkeep rounds

/-- The broker puts back at the head, and the question is not asked. -/
def plainSetting (limit : Option Int) : Setting where
  exchange := some "app"
  exchangeDeclared := true
  queueFilter := some "user"
  limit := limit
  force := true
  confirm := false
  lower := id
  putBack := List.cons
  emptyRaises := true

def deadFrom (queue : String) : RawMessage :=
  ⟨[], some "dlx", some [.table ⟨some queue, some "rejected", some (.number 1), none⟩], none, none⟩

/-- The first ack fails, so the message is published twice. -/
theorem requeue_conserves_after_failed_ack :
    Conserved (plainSetting (some 2)) ([deadFrom "user.q"] ++ arrived [.quiet, .quiet, .quiet,
        ⟨[], false, true, false, true⟩, .quiet])
      (∀ r ∈ [Round.quiet, .quiet, .quiet, ⟨[], false, true, false, true⟩, .quiet], r.ack = true)
      (run (plainSetting (some 2)) (start (plainSetting (some 2)) [deadFrom "user.q"])
        [.quiet, .quiet, .quiet, ⟨[], false, true, false, true⟩, .quiet]) ∧
      (run (plainSetting (some 2)) (start (plainSetting (some 2)) [deadFrom "user.q"])
        [.quiet, .quiet, .quiet, ⟨[], false, true, false, true⟩, .quiet]).published.length = 2 :=
  ⟨requeue_conserves (fun m rest => List.Perm.refl (m :: rest)) _ _, by decide⟩

/-! ## Rounds in which nothing fails -/

section Quiet

def quietRounds (n : Nat) : List Round := List.replicate n Round.quiet

/-- One quiet round more is one step more. -/
theorem run_quiet_succ (s : Command) (n : Nat) :
    run e s (quietRounds (n + 1)) = step e (run e s (quietRounds n)) Round.quiet := by
  rw [quietRounds, List.replicate_succ', run, List.foldl_append]
  rfl

/-- Without a limit the preview of a queue that is not empty goes on. -/
theorem previewRound_unlimited (hkeep : KeepsMessages e) (hlimit : e.limit = none) {s : Command}
    (hphase : s.phase = .preview) (hqueue : s.queue ≠ []) :
    (previewRound e s .quiet).phase = .preview ∧ (previewRound e s .quiet).queue.Perm s.queue := by
  obtain ⟨m, rest, hcons⟩ := List.exists_cons_of_ne_nil hqueue
  have hround : fetchRound e e.limit false { queue := s.queue, messages := s.preview } .quiet =
      { queue := e.putBack m rest, messages := s.preview ++ [dlqMessage m] } := by
    simp [fetchRound, hlimit, reached, Round.quiet, hcons]
  unfold previewRound
  rw [hround]
  exact ⟨hphase, hcons ▸ hkeep m rest⟩

/-- `dlq requeue` without a limit never gets past its preview of a queue that is not empty. -/
theorem requeue_unlimited_never_starts (hkeep : KeepsMessages e) (hlimit : e.limit = none)
    (hexchange : truthy e.exchange ≠ none) {queue : List RawMessage}
    (hqueue : queue ≠ []) (n : Nat) :
    (run e (start e queue) (quietRounds n)).phase = .preview ∧
      (run e (start e queue) (quietRounds n)).published = [] ∧
      (run e (start e queue) (quietRounds n)).queue.Perm queue := by
  induction n with
  | zero =>
    obtain ⟨name, hname⟩ := Option.ne_none_iff_exists'.mp hexchange
    simp [quietRounds, run, start, hname, hqueue]
  | succ n ih =>
    obtain ⟨hphase, hpublished, hperm⟩ := ih
    have hne : (run e (start e queue) (quietRounds n)).queue ≠ [] := by
      intro hnil
      rw [hnil] at hperm
      exact hqueue hperm.nil_eq.symm
    have hstep : step e (run e (start e queue) (quietRounds n)) .quiet =
        previewRound e (run e (start e queue) (quietRounds n)) .quiet := by
      simp only [step, hphase]
    have hround := previewRound_unlimited hkeep hlimit hphase hne
    rw [run_quiet_succ, hstep]
    refine ⟨hround.1, ?_, hround.2.trans hperm⟩
    have hsame : (previewRound e (run e (start e queue) (quietRounds n)) .quiet).published =
        (run e (start e queue) (quietRounds n)).published := by
      unfold previewRound
      simp only
      split <;> rfl
    rw [hsame, hpublished]

theorem requeue_unlimited_never_starts_three :
    (run (plainSetting none) (start (plainSetting none) [deadFrom "user.q"])
      (quietRounds 3)).phase = .preview :=
  (requeue_unlimited_never_starts (fun m rest => List.Perm.refl (m :: rest)) rfl (by decide)
    (List.cons_ne_nil _ _) 3).1

/-- `fetch_dlq_messages` on a queue, after some rounds. -/
def fetch (e : Setting) (limit : Option Int) (consume : Bool) (queue : List RawMessage)
    (rounds : List Round) : Fetch :=
  rounds.foldl (fetchRound e limit consume) { queue := queue }

/-- What `dlq list` shows of what it fetched. -/
def dlqList (e : Setting) (messages : List DLQMessage) : List DLQMessage :=
  messages.filter fun m => passes e m.originalQueue

/-- What is given back is the first of the queue again. -/
def BackToHead (e : Setting) : Prop := ∀ m rest, e.putBack m rest = m :: rest

/-- A broker that puts a refused message back at the head keeps the messages. -/
theorem BackToHead.keeps (h : BackToHead e) : KeepsMessages e :=
  fun m rest => h m rest ▸ List.Perm.refl _

/-- The fetch of `dlq list` reads the first message over and over. -/
theorem fetch_quiet (hback : BackToHead e) (l : Int) (m : RawMessage)
    (rest : List RawMessage) {n : Nat}
    (hn : n ≤ l.toNat) : fetch e (some l) false (m :: rest) (quietRounds n) =
      { queue := m :: rest, messages := List.replicate n (dlqMessage m) } := by
  induction n with
  | zero => rfl
  | succ n ih =>
    have hnot : ¬ l ≤ (n : Int) := by omega
    rw [fetch, quietRounds, List.replicate_succ', List.foldl_append, ← quietRounds, ← fetch,
      ih (Nat.le_of_succ_le hn)]
    simp [fetchRound, Round.quiet, reached, hnot, hback m rest, List.replicate_succ']

/-- `dlq list` shows the first message as often as its limit says, or nothing. -/
theorem list_repeats_head (hback : BackToHead e) (l : Int) (m : RawMessage)
    (rest : List RawMessage) :
    fetch e (some l) false (m :: rest) (quietRounds (l.toNat + 1)) =
        { queue := m :: rest, messages := List.replicate l.toNat (dlqMessage m)
          result := some true } ∧
      dlqList e (List.replicate l.toNat (dlqMessage m)) =
        if passes e (dlqMessage m).originalQueue then List.replicate l.toNat (dlqMessage m)
        else [] := by
  constructor
  · have hreached : l ≤ ((l.toNat : Nat) : Int) := Int.self_le_toNat l
    rw [fetch, quietRounds, List.replicate_succ', List.foldl_append, ← quietRounds, ← fetch,
      fetch_quiet hback l m rest (Nat.le_refl _)]
    simp only [List.foldl_cons, List.foldl_nil, fetchRound, Option.isSome_none,
      Bool.false_eq_true, if_false,
      Round.quiet, List.append_nil, reached, List.length_replicate, decide_eq_true hreached,
        Bool.true_or,
      if_true]
    rfl
  · rw [dlqList, List.filter_replicate]

/-- Two messages in the queue: the first is shown three times. -/
theorem list_repeats_head_three :
    dlqList (plainSetting none)
    (fetch (plainSetting none) (some 3) false [deadFrom "user.q", deadFrom "task.q"]
      (quietRounds 4)).messages = List.replicate 3 (dlqMessage (deadFrom "user.q")) := by
  have hfetch :=
    list_repeats_head (e := plainSetting none) (fun _ _ => rfl) 3 (deadFrom "user.q")
    [deadFrom "task.q"]
  have hpass : passes (plainSetting none)
    (dlqMessage (deadFrom "user.q")).originalQueue = true := by decide
  rw [if_pos hpass] at hfetch
  exact (congrArg (fun f => dlqList (plainSetting none) f.messages) hfetch.1).trans hfetch.2

/-- The first messages of the queue, as long as they pass. -/
def passing (e : Setting) (queue : List RawMessage) : List RawMessage :=
  queue.takeWhile fun m => passes e (originalQueue m)

theorem passing_cons {m : RawMessage} (h : passes e (originalQueue m) = true)
    (rest : List RawMessage) :
    passing e (m :: rest) = m :: passing e rest := List.takeWhile_cons_of_pos h

theorem passing_stuck {m : RawMessage} (h : passes e (originalQueue m) = false)
    (rest : List RawMessage) :
    passing e (m :: rest) = [] := List.takeWhile_cons_of_neg (by simp [h])

/-- The messages that the loop comes to: those that pass, up to the limit. -/
def inReach (e : Setting) (s : Command) : List RawMessage :=
  match e.limit with
  | none => passing e s.queue
  | some l => (passing e s.queue).take (l - s.count).toNat

theorem requeueRound_move {s : Command} {m : RawMessage} {rest : List RawMessage}
    (hqueue : s.queue = m :: rest)
    (hlimit : reached e.limit s.count = false) (hpass : passes e (originalQueue m) = true) :
    requeueRound e s .quiet =
      { s with
        queue := rest, published := s.published ++ [(m, requeuePublication m)]
        acked := s.acked ++ [m],
               requeued := s.requeued + 1, count := s.count + 1 } := by
  simp [requeueRound, Round.quiet, hqueue, hlimit, hpass]

/-- A message that does not pass is given back and is the first again. -/
theorem requeueRound_stuck (hback : BackToHead e) {s : Command} {m : RawMessage}
    {rest : List RawMessage}
    (hqueue : s.queue = m :: rest) (hlimit : reached e.limit s.count = false)
    (hpass : passes e (originalQueue m) = false) : requeueRound e s .quiet = s := by
  have hsame : ({ s with queue := m :: rest } : Command) = s := by rw [← hqueue]
  simp [requeueRound, Round.quiet, hqueue, hlimit, hpass, giveBack, hback m rest, hsame]

theorem requeueRound_stop {s : Command} (h : reached e.limit s.count = true ∨ s.queue = []) :
    (requeueRound e s .quiet).phase.isEnded = true ∧ (requeueRound e s .quiet).acked = s.acked := by
  cases hlimit : reached e.limit s.count with
  | true => simp [requeueRound, Round.quiet, hlimit, Phase.isEnded]
  | false =>
    have hnil : s.queue = [] := h.resolve_left (by simp [hlimit])
    simp [requeueRound, Round.quiet, hlimit, hnil, Phase.isEnded]

theorem run_quiet_ended {s : Command} (h : s.phase.isEnded = true) (n : Nat) :
    run e s (quietRounds n) = s := by
  induction n with
  | zero => rfl
  | succ n ih =>
    rw [run_quiet_succ, ih]
    cases hphase : s.phase with
    | ended how => simp only [step, hphase, Round.quiet, List.append_nil]; rw [← hphase]
    | preview => simp [hphase, Phase.isEnded] at h
    | requeue => simp [hphase, Phase.isEnded] at h

theorem run_quiet_cons (s : Command) (n : Nat) :
    run e s (quietRounds (n + 1)) = run e (step e s .quiet) (quietRounds n) := by
  rw [quietRounds, List.replicate_succ, run, List.foldl_cons]
  rfl

theorem inReach_nil_of_stop {s : Command} (h : reached e.limit s.count = true ∨ s.queue = []) :
    inReach e s = [] := by
  unfold inReach
  obtain hlimit | hnil := h
  · cases hl : e.limit with
    | none => simp [reached, hl] at hlimit
    | some l =>
      have hle : l ≤ (s.count : Int) := by simpa [reached, hl] using hlimit
      have hzero : (l - s.count).toNat = 0 := by omega
      simp only [hzero, List.take_zero]
  · have hnone : passing e s.queue = [] := by rw [hnil]; rfl
    rw [hnone]
    cases e.limit <;> simp

theorem inReach_cons {s : Command} {m : RawMessage} {rest : List RawMessage}
    (hqueue : s.queue = m :: rest)
    (hlimit : reached e.limit s.count = false) (hpass : passes e (originalQueue m) = true)
    (t : Command)
    (ht : t.queue = rest) (hcount : t.count = s.count + 1) : inReach e s = m :: inReach e t := by
  unfold inReach
  rw [hqueue, ht, hcount, passing_cons hpass]
  cases hl : e.limit with
  | none => rfl
  | some l =>
    have hlt : ¬ l ≤ (s.count : Int) := by simpa [reached, hl] using hlimit
    have hsucc : (l - s.count).toNat = (l - (s.count + 1 : Nat)).toNat + 1 := by omega
    simp only [hsucc, List.take_succ_cons]

theorem inReach_stuck {s : Command} {m : RawMessage} {rest : List RawMessage}
    (hqueue : s.queue = m :: rest)
    (hpass : passes e (originalQueue m) = false) : inReach e s = [] := by
  unfold inReach
  rw [hqueue, passing_stuck hpass]
  cases e.limit <;> simp

/-- What the loop has acked after some rounds. -/
theorem requeue_acked (hback : BackToHead e) {s : Command} (hphase : s.phase = .requeue) (n : Nat) :
    (run e s (quietRounds n)).acked = s.acked ++ (inReach e s).take n := by
  induction n generalizing s with
  | zero => simp [quietRounds, run]
  | succ n ih =>
    have hstep : step e s .quiet = requeueRound e s .quiet := by simp only [step, hphase]
    rw [run_quiet_cons, hstep]
    by_cases hstop : reached e.limit s.count = true ∨ s.queue = []
    · obtain ⟨hended, hacked⟩ := requeueRound_stop hstop
      rw [run_quiet_ended hended, hacked, inReach_nil_of_stop hstop]
      simp
    · obtain ⟨hlimit, hne⟩ := not_or.mp hstop
      have hlimit : reached e.limit s.count = false := by simpa using hlimit
      obtain ⟨m, rest, hqueue⟩ := List.exists_cons_of_ne_nil hne
      cases hpass : passes e (originalQueue m) with
      | true =>
        have hmove := requeueRound_move hqueue hlimit hpass
        have hreach :=
          inReach_cons hqueue hlimit hpass (requeueRound e s .quiet) (by rw [hmove]) (by rw [hmove])
        rw [ih (by rw [hmove]; exact hphase), hreach, hmove]
        simp
      | false =>
        rw [requeueRound_stuck hback hqueue hlimit hpass, ih hphase, inReach_stuck hqueue hpass]
        simp

/-- The loop ends where every message passes or the limit is in reach of those that do. -/
theorem requeue_ends_iff (hback : BackToHead e) {s : Command} (hphase : s.phase = .requeue) :
    (∃ n, (run e s (quietRounds n)).phase.isEnded = true) ↔
      (∀ m ∈ s.queue, passes e (originalQueue m) = true) ∨
        ∃ l, e.limit = some l ∧
          l ≤ s.count + ((passing e s.queue).length : Nat) := by
  induction hqueue : s.queue generalizing s with
  | nil =>
    have hend := (requeueRound_stop (e := e) (.inr hqueue)).1
    have hstep : step e s .quiet = requeueRound e s .quiet := by simp only [step, hphase]
    simp only [List.not_mem_nil, false_imp_iff, implies_true, true_or, iff_true]
    refine ⟨1, ?_⟩
    rw [run_quiet_cons, hstep]
    exact hend
  | cons m rest ih =>
    have hstep : step e s .quiet = requeueRound e s .quiet := by simp only [step, hphase]
    cases hlimit : reached e.limit s.count with
    | true =>
      obtain ⟨l, hl⟩ : ∃ l, e.limit = some l := by
        cases hl : e.limit with
        | none => simp [reached, hl] at hlimit
        | some l => exact ⟨l, rfl⟩
      have hle : l ≤ (s.count : Int) := by simpa [reached, hl] using hlimit
      refine iff_of_true ⟨1, ?_⟩ (.inr ⟨l, hl, by omega⟩)
      rw [run_quiet_cons, hstep]
      exact (requeueRound_stop (.inl hlimit)).1
    | false =>
      cases hpass : passes e (originalQueue m) with
      | true =>
        have hmove := requeueRound_move hqueue hlimit hpass
        have hrest :=
          ih (s := requeueRound e s .quiet) (by rw [hmove]; exact hphase) (by rw [hmove])
        have hshift : (∃ n, (run e s (quietRounds n)).phase.isEnded = true) ↔
            ∃ n, (run e (requeueRound e s .quiet) (quietRounds n)).phase.isEnded = true := by
          constructor
          · rintro ⟨n, hn⟩
            cases n with
            | zero => simp [quietRounds, run, hphase, Phase.isEnded] at hn
            | succ n => exact ⟨n, by rwa [run_quiet_cons, hstep] at hn⟩
          · rintro ⟨n, hn⟩
            exact ⟨n + 1, by rwa [run_quiet_cons, hstep]⟩
        have hcount : (requeueRound e s .quiet).count = s.count + 1 := by rw [hmove]
        have hlength : (s.count : Int) + ((passing e (m :: rest)).length : Nat) =
            ((s.count + 1 : Nat) : Int) + ((passing e rest).length : Nat) := by
          rw [passing_cons hpass, List.length_cons]
          omega
        rw [hshift, hrest, hcount, hlength]
        simp only [List.mem_cons, forall_eq_or_imp, hpass, true_and]
      | false =>
        have hstuck := requeueRound_stuck hback hqueue hlimit hpass
        have hnever : ∀ n, run e s (quietRounds n) = s := by
          intro n
          induction n with
          | zero => rfl
          | succ n ihn => rw [run_quiet_cons, hstep, hstuck, ihn]
        refine iff_of_false ?_ ?_
        · rintro ⟨n, hn⟩
          rw [hnever n, hphase] at hn
          exact absurd hn (by decide)
        · rintro (hall | ⟨l, hl, hle⟩)
          · rw [hall m List.mem_cons_self] at hpass
            cases hpass
          · have hnot : ¬ l ≤ (s.count : Int) := by simpa [reached, hl] using hlimit
            rw [passing_stuck hpass] at hle
            exact hnot (by simpa using hle)

/-- The loop of `dlq requeue` takes the messages in reach, one a round, and goes on for ever
behind them where a message does not pass. -/
theorem requeue_stops_at_mismatch (hback : BackToHead e) {s : Command}
    (hphase : s.phase = .requeue) :
    (∀ n, (run e s (quietRounds n)).acked = s.acked ++ (inReach e s).take n) ∧
      ((∃ n, (run e s (quietRounds n)).phase.isEnded = true) ↔
        (∀ m ∈ s.queue, passes e (originalQueue m) = true) ∨
          ∃ l, e.limit = some l ∧ l ≤ s.count + ((passing e s.queue).length : Nat)) :=
  ⟨requeue_acked hback hphase, requeue_ends_iff hback hphase⟩

/-- The second message does not pass, and the loop never comes to the third. -/
theorem requeue_stops_at_second :
    ¬∃ n, (run (plainSetting none)
      { queue := [deadFrom "user.q", deadFrom "task.q", deadFrom "user.q"], phase := .requeue }
      (quietRounds n)).phase.isEnded = true := by
  rw [(requeue_stops_at_mismatch (e := plainSetting none) (fun _ _ => rfl) rfl).2]
  rintro (hall | ⟨l, hl, -⟩)
  · exact absurd (hall (deadFrom "task.q") (by simp)) (by decide)
  · cases hl

end Quiet

end DeadLetters

import Mathlib.Data.List.Basic
import Mathlib.Tactic.Common

/-!
# The Redis backend of the websockets

`RedisWebSocketConnectionBackend` of websocket/redis.py: the two consumers and their
restarts, the task of each message, the helpers that write the task set, the permits and the
lock, and `shutdown`. Everything between two awaits is one step. A free lock is taken without
an await, and only `shutdown` keeps it over one, so nobody waits for it before that.
-/
namespace SocketBackend

inductive Channel where
  | broadcast
  | send
  deriving DecidableEq, Repr

/-- Where `consume_broadcast` or `consume_send` stands: before its loop, at `get_message`, at
the semaphore, woken there with a permit, or at the lock with a permit. `reaped` is ended
with its done callback run. -/
inductive Pc where
  | starting
  | fetching
  | acquiring
  | granted
  | locking
  | ended
  | reaped
  deriving DecidableEq, Repr

/-- A consumer; `registered` means that it is in `self.tasks`. -/
structure Consumer where
  channel : Channel
  pc : Pc := .starting
  registered : Bool := false

inductive MessagePc where
  | created
  | running
  | ended
  deriving DecidableEq, Repr

structure MessageTask where
  pc : MessagePc := .created
  registered : Bool := true

/-- A task of `add_task` or `remove_task`: whether it adds, and its consumer. -/
structure Helper where
  adds : Bool
  consumer : Nat
  done : Bool := false

/-- Where `shutdown` stands: with the lock at `gather` for the tasks of its snapshot, or with
the lock at `redis.close`. -/
inductive Shutdown where
  | idle
  | gathering (consumers messages : List Nat)
  | closing
  | returned

structure Backend where
  value : Nat
  shutdownEvent : Bool := false
  consumers : List Consumer := []
  messages : List MessageTask := []
  helpers : List Helper := []
  retries : List Channel := []
  shutdown : Shutdown := .idle

namespace Backend

/-- `setup_send_consumer` or `setup_broadcast_consumer`. -/
def setup (s : Backend) (channel : Channel) : Backend :=
  { s with
    consumers := s.consumers ++ [{ channel := channel }]
    helpers := s.helpers ++ [{ adds := true, consumer := s.consumers.length }] }

/-- `configure`, with `max_concurrent_tasks` permits. -/
def configure (maxConcurrentTasks : Nat) : Backend :=
  (({ value := maxConcurrentTasks } : Backend).setup .send).setup .broadcast

def lockHeld (s : Backend) : Bool :=
  match s.shutdown with
  | .gathering _ _ | .closing => true
  | .idle | .returned => false

def put (s : Backend) (i : Nat) (c : Consumer) : Backend :=
  { s with consumers := s.consumers.set i c }

def putMessage (s : Backend) (j : Nat) (m : MessageTask) : Backend :=
  { s with messages := s.messages.set j m }

/-- `while not shutdown_event.is_set()`. -/
def loopPc (s : Backend) : Pc := if s.shutdownEvent then .ended else .fetching

/-- Under the lock: the task of the message is made and added. -/
def create (s : Backend) (i : Nat) (c : Consumer) : Backend :=
  { (s.put i { c with pc := s.loopPc }) with messages := s.messages ++ [{}] }

/-- `create_task` raised: the permit goes back and the loop goes on. -/
def createFails (s : Backend) (i : Nat) (c : Consumer) : Backend :=
  { (s.put i { c with pc := s.loopPc }) with value := s.value + 1 }

/-- `handle_send_task_done` or `handle_broadcast_task_done`. -/
def reap (s : Backend) (i : Nat) (c : Consumer) : Backend :=
  { (s.put i { c with pc := .reaped }) with
    helpers := s.helpers ++ [{ adds := false, consumer := i }]
    retries := if s.shutdownEvent then s.retries else s.retries ++ [c.channel] }

/-- The helper writes the task set. -/
def help (s : Backend) (k : Nat) (h : Helper) : Backend :=
  { s with
    helpers := s.helpers.set k { h with done := true }
    consumers := s.consumers.modify h.consumer fun c => { c with registered := h.adds } }

/-- `_retry_send_consumer_with_delay` or `_retry_broadcast_consumer_with_delay` wakes up. -/
def retry (s : Backend) (channel : Channel) (rest : List Channel) : Backend :=
  if s.shutdownEvent then { s with retries := rest } else { s with retries := rest }.setup channel

/-- The places at which a list has a task of `self.tasks`. -/
def places {α : Type} (registered : α → Bool) (tasks : List α) : List Nat :=
  (List.range tasks.length).filter fun n => (tasks[n]?).any registered

/-- `gather(*self.tasks)`. -/
def snapshot (s : Backend) : Shutdown :=
  .gathering (places Consumer.registered s.consumers) (places MessageTask.registered s.messages)

def pcOf (s : Backend) (i : Nat) : Option Pc := (s.consumers[i]?).map Consumer.pc

/-- Somebody waits at the semaphore, or has been woken there. -/
def queued (s : Backend) : Bool := s.consumers.any fun c => c.pc == .acquiring || c.pc == .granted

end Backend

def Pc.isOver : Pc → Bool
  | .ended | .reaped => true
  | _ => false

/-- What a consumer with a permit does up to its next await. It waits for the lock only if
`shutdown` took it, also after it was given back, where others may come first. -/
inductive Passes (s : Backend) (i : Nat) (c : Consumer) : Backend → Prop
  | creates (hfree : s.lockHeld = false) : Passes s i c (s.create i c)
  | fails (hfree : s.lockHeld = false) : Passes s i c (s.createFails i c)
  | waits (hcalled : s.shutdown ≠ .idle) : Passes s i c (s.put i { c with pc := .locking })

inductive Act where
  | receives (i : Nat)
  | queues (i : Nat)
  | resumes (i : Nat)
  | cancelsAtLock (i : Nat)
  | cancelsUnstarted (j : Nat)
  | other

inductive Step : Act → Backend → Backend → Prop
  | sets {s} : Step .other s { s with shutdownEvent := true }
  -- the consumer has subscribed, or `get_message` returned None
  | loops {s i c} (h : s.consumers[i]? = some c) (hpc : c.pc = .starting ∨ c.pc = .fetching) :
      Step .other s (s.put i { c with pc := s.loopPc })
  -- Redis fails, or a message does not decode
  | raises {s i c} (h : s.consumers[i]? = some c) (hpc : c.pc = .starting ∨ c.pc = .fetching) :
      Step .other s (s.put i { c with pc := .ended })
  | receives {s i c t} (h : s.consumers[i]? = some c) (hpc : c.pc = .fetching)
      (hvalue : 0 < s.value)
      (hfirst : s.queued = false) (hpasses : Passes { s with value := s.value - 1 } i c t) :
      Step (.receives i) s t
  | queues {s i c} (h : s.consumers[i]? = some c) (hpc : c.pc = .fetching)
      (hlocked : s.value = 0 ∨ s.queued = true) :
        Step (.queues i) s (s.put i { c with pc := .acquiring })
  | wakes {s i c} (h : s.consumers[i]? = some c) (hpc : c.pc = .acquiring) (hvalue : 0 < s.value) :
      Step .other s { (s.put i { c with pc := .granted }) with value := s.value - 1 }
  | resumes {s i c t} (h : s.consumers[i]? = some c) (hpc : c.pc = .granted)
      (hpasses : Passes s i c t) :
      Step (.resumes i) s t
  | enters {s i c t} (h : s.consumers[i]? = some c) (hpc : c.pc = .locking)
      (hfree : s.lockHeld = false)
      (ht : t = s.create i c ∨ t = s.createFails i c) : Step .other s t
  | cancels {s i c} (h : s.consumers[i]? = some c)
      (hpc : c.pc = .starting ∨ c.pc = .fetching ∨ c.pc = .acquiring) :
      Step .other s (s.put i { c with pc := .ended })
  -- the semaphore takes back a permit that its waiter was cancelled with
  | cancelsGranted {s i c} (h : s.consumers[i]? = some c) (hpc : c.pc = .granted) :
      Step .other s { (s.put i { c with pc := .ended }) with value := s.value + 1 }
  -- `except Exception` does not see the cancellation
  | cancelsAtLock {s i c} (h : s.consumers[i]? = some c) (hpc : c.pc = .locking) :
      Step (.cancelsAtLock i) s (s.put i { c with pc := .ended })
  | reaps {s i c} (h : s.consumers[i]? = some c) (hpc : c.pc = .ended) : Step .other s (s.reap i c)
  | starts {s j m} (h : s.messages[j]? = some m) (hpc : m.pc = .created) :
      Step .other s (s.putMessage j { m with pc := .running })
  -- the message was sent, or that raised, or was cancelled
  | finishes {s j m} (h : s.messages[j]? = some m) (hpc : m.pc = .running) :
      Step .other s { (s.putMessage j { m with pc := .ended }) with value := s.value + 1 }
  -- a coroutine that never began has no `finally`
  | cancelsUnstarted {s j m} (h : s.messages[j]? = some m) (hpc : m.pc = .created) :
      Step (.cancelsUnstarted j) s (s.putMessage j { m with pc := .ended })
  | discards {s j m} (h : s.messages[j]? = some m) (hpc : m.pc = .ended) :
      Step .other s (s.putMessage j { m with registered := false })
  | helps {s k h} (hk : s.helpers[k]? = some h) (hpending : h.done = false)
      (hfree : s.lockHeld = false) :
      Step .other s (s.help k h)
  | retries {s channel before after} (h : s.retries = before ++ channel :: after) :
      Step .other s (s.retry channel (before ++ after))
  | shuts {s} (hset : s.shutdownEvent = true) (hidle : s.shutdown = .idle) :
      Step .other s { s with shutdown := s.snapshot }
  | gathers {s consumers messages} (h : s.shutdown = .gathering consumers messages)
      (hconsumers : ∀ i ∈ consumers, (s.pcOf i).all Pc.isOver)
      (hmessages : ∀ j ∈ messages, ∀ m, s.messages[j]? = some m → m.pc = .ended) :
      Step .other s { s with shutdown := .closing }
  | closes {s} (h : s.shutdown = .closing) : Step .other s { s with shutdown := .returned }

/-- A run from `configure`, with the state before each step and the step. -/
inductive Run (maxConcurrentTasks : Nat) : List (Backend × Act) → Backend → Prop
  | start : Run maxConcurrentTasks [] (.configure maxConcurrentTasks)
  | tail {steps s a t} (hrun : Run maxConcurrentTasks steps s) (hstep : Step a s t) :
      Run maxConcurrentTasks (steps ++ [(s, a)]) t

section Permits

/-- The consumer has a permit and has not made its task. -/
def Consumer.holds (c : Consumer) : Bool := c.pc == .granted || c.pc == .locking

def MessageTask.isLive (m : MessageTask) : Bool := m.pc != .ended

def holding (s : Backend) : Nat := s.consumers.countP Consumer.holds

def live (s : Backend) : Nat := s.messages.countP MessageTask.isLive

/-- The permits that are accounted for. -/
def total (s : Backend) : Nat := s.value + (live s + holding s)

/-- A step that loses a permit: the consumer is cancelled at the lock, or the task of a
message before its first step. -/
def Act.leaks : Act → Bool
  | .cancelsAtLock _ | .cancelsUnstarted _ => true
  | _ => false

variable {s t : Backend} {a : Act}

theorem countP_set_balance {α : Type} {p : α → Bool} {l : List α} {i : Nat} {old : α} (new : α)
    (h : l[i]? = some old) :
    (l.set i new).countP p + (p old).toNat = l.countP p + (p new).toNat := by
  obtain ⟨hlt, hold⟩ := List.getElem?_eq_some_iff.mp h
  have hpos : p old = true → 0 < l.countP p := fun hp =>
    List.countP_pos_iff.mpr ⟨old, List.mem_of_getElem? h, hp⟩
  rw [List.countP_set hlt, hold]
  cases hp : p old with
  | false => cases p new <;> simp
  | true =>
    have := hpos hp
    cases p new <;> simp <;> omega

theorem holding_put {i : Nat} {c : Consumer} (c' : Consumer) (h : s.consumers[i]? = some c) :
    holding (s.put i c') + c.holds.toNat = holding s + c'.holds.toNat :=
  countP_set_balance c' h

theorem live_put {j : Nat} {m : MessageTask} (m' : MessageTask) (h : s.messages[j]? = some m) :
    live (s.putMessage j m') + m.isLive.toNat = live s + m'.isLive.toNat :=
  countP_set_balance m' h

theorem loopPc_holds (s : Backend) (c : Consumer) :
    ({ c with pc := s.loopPc } : Consumer).holds = false := by
  unfold Backend.loopPc Consumer.holds
  cases s.shutdownEvent <;> rfl

/-- A consumer moves and the semaphore takes a value. -/
theorem total_put_value {i : Nat} {c : Consumer} (c' : Consumer) (value : Nat)
    (h : s.consumers[i]? = some c) :
    total { (s.put i c') with value := value } + s.value + c.holds.toNat =
      total s + value + c'.holds.toNat := by
  have hholding := holding_put c' h
  show value + (live s + holding (s.put i c')) + s.value + c.holds.toNat =
    s.value + (live s + holding s) + value + c'.holds.toNat
  omega

theorem total_put {i : Nat} {c : Consumer} (c' : Consumer) (h : s.consumers[i]? = some c) :
    total (s.put i c') + c.holds.toNat = total s + c'.holds.toNat := by
  have hput : total (s.put i c') + s.value + c.holds.toNat = total s + s.value + c'.holds.toNat :=
    total_put_value c' s.value h
  omega

/-- A message's task moves and the semaphore takes a value. -/
theorem total_putMessage {j : Nat} {m : MessageTask} (m' : MessageTask) (value : Nat)
    (h : s.messages[j]? = some m) :
    total { (s.putMessage j m') with value := value } + s.value + m.isLive.toNat =
      total s + value + m'.isLive.toNat := by
  have hlive := live_put m' h
  show value + (live (s.putMessage j m') + holding s) + s.value + m.isLive.toNat =
    s.value + (live s + holding s) + value + m'.isLive.toNat
  omega

theorem total_create {i : Nat} {c : Consumer} (h : s.consumers[i]? = some c) :
    total (s.create i c) + c.holds.toNat = total s + 1 := by
  have hput := total_put { c with pc := s.loopPc } h
  rw [loopPc_holds, Bool.toNat_false] at hput
  have hlive : live (s.create i c) = live (s.put i { c with pc := s.loopPc }) + 1 := by
    simp [live, Backend.create, Backend.put, MessageTask.isLive]
  have hcreate : total (s.create i c) = total (s.put i { c with pc := s.loopPc }) + 1 := by
    have hholding : holding (s.create i c) = holding (s.put i { c with pc := s.loopPc }) := rfl
    have hvalue : (s.create i c).value = (s.put i { c with pc := s.loopPc }).value := rfl
    unfold total
    omega
  omega

theorem total_createFails {i : Nat} {c : Consumer} (h : s.consumers[i]? = some c) :
    total (s.createFails i c) + c.holds.toNat = total s + 1 := by
  have hput : total (s.createFails i c) + s.value + c.holds.toNat = _ :=
    total_put_value { c with pc := s.loopPc } (s.value + 1) h
  rw [loopPc_holds, Bool.toNat_false] at hput
  omega

/-- Whatever a consumer does with its permit, the permit is not lost. -/
theorem total_passes {i : Nat} {c : Consumer} (h : s.consumers[i]? = some c)
    (hpasses : Passes s i c t) :
    total t + c.holds.toNat = total s + 1 := by
  cases hpasses with
  | creates hfree => exact total_create h
  | fails hfree => exact total_createFails h
  | waits hcalled => exact total_put _ h

theorem not_holds {c : Consumer}
    (h : c.pc = .starting ∨ c.pc = .fetching ∨ c.pc = .acquiring ∨ c.pc = .ended) :
    c.holds = false := by
  unfold Consumer.holds
  obtain h | h | h | h := h <;> rw [h] <;> rfl

theorem holds_of_permit {c : Consumer} (h : c.pc = .granted ∨ c.pc = .locking) :
    c.holds = true := by
  unfold Consumer.holds
  obtain h | h := h <;> rw [h] <;> rfl

/-- A move without a permit before and after it. -/
theorem total_moves {i : Nat} {c c' : Consumer} (h : s.consumers[i]? = some c)
    (hc : c.holds = false)
    (hc' : c'.holds = false) : total (s.put i c') = total s := by
  have hput := total_put c' h
  rw [hc, hc'] at hput
  exact hput

theorem isLive_of_ne {m : MessageTask} (h : m.pc ≠ .ended) : m.isLive = true := by
  simpa [MessageTask.isLive] using h

theorem not_live {m : MessageTask} (h : m.pc = .ended) : m.isLive = false := by
  simp [MessageTask.isLive, h]

/-- What the helpers do leaves the permits where they are. -/
theorem total_help (k : Nat) (h : Helper) : total (s.help k h) = total s := by
  have hholding : holding (s.help k h) = holding s := by
    unfold holding Backend.help
    generalize s.consumers = consumers
    generalize h.consumer = i
    induction consumers generalizing i with
    | nil => simp
    | cons c rest ih =>
      cases i with
      | zero => simp [List.countP_cons, Consumer.holds]
      | succ i => simpa [List.countP_cons] using ih i
  have hlive : live (s.help k h) = live s := rfl
  have hvalue : (s.help k h).value = s.value := rfl
  unfold total
  omega

theorem total_setup (s : Backend) (channel : Channel) : total (s.setup channel) = total s := by
  have hholding : holding (s.setup channel) = holding s := by
    simp [holding, Backend.setup, Consumer.holds]
  have hlive : live (s.setup channel) = live s := rfl
  have hvalue : (s.setup channel).value = s.value := rfl
  unfold total
  omega

theorem total_retry (channel : Channel) (rest : List Channel) :
    total (s.retry channel rest) = total s := by
  unfold Backend.retry
  split
  · rfl
  · exact total_setup _ channel

/-- A step loses a permit if it is one of the two leaks, and never makes one. -/
theorem step_total (hstep : Step a s t) : total t + a.leaks.toNat = total s := by
  cases hstep with
  | sets => rfl
  | loops h hpc => exact total_moves h (not_holds (by tauto)) (loopPc_holds s _)
  | raises h hpc => exact total_moves h (not_holds (by tauto)) rfl
  | receives h hpc hvalue hfirst hpasses =>
    have hpassed := total_passes (s := { s with value := s.value - 1 }) h hpasses
    have htaken : total { s with value := s.value - 1 } + 1 = total s := by
      show s.value - 1 + (live s + holding s) + 1 = s.value + (live s + holding s)
      omega
    rw [not_holds (.inr (.inl hpc)), htaken] at hpassed
    exact hpassed
  | queues h hpc hlocked => exact total_moves h (not_holds (.inr (.inl hpc))) rfl
  | wakes h hpc hvalue =>
    rename_i i c
    have hput := total_put_value { c with pc := .granted } (s.value - 1) h
    rw [not_holds (.inr (.inr (.inl hpc)))] at hput
    have hnew : ({ c with pc := .granted } : Consumer).holds = true := rfl
    rw [hnew] at hput
    simp only [Act.leaks, Bool.toNat_false, Bool.toNat_true] at hput ⊢
    omega
  | resumes h hpc hpasses =>
    have hpassed := total_passes h hpasses
    rw [holds_of_permit (.inl hpc)] at hpassed
    exact Nat.succ.inj hpassed
  | enters h hpc hfree ht =>
    have hholds := holds_of_permit (.inr hpc)
    obtain rfl | rfl := ht
    · have hcreate := total_create h
      rw [hholds] at hcreate
      exact Nat.succ.inj hcreate
    · have hfails := total_createFails h
      rw [hholds] at hfails
      exact Nat.succ.inj hfails
  | cancels h hpc => exact total_moves h (not_holds (by tauto)) rfl
  | cancelsGranted h hpc =>
    rename_i i c
    have hput := total_put_value { c with pc := .ended } (s.value + 1) h
    have hnew : ({ c with pc := .ended } : Consumer).holds = false := rfl
    rw [holds_of_permit (.inl hpc), hnew] at hput
    simp only [Act.leaks, Bool.toNat_false, Bool.toNat_true] at hput ⊢
    omega
  | cancelsAtLock h hpc =>
    rename_i i c
    have hput := total_put { c with pc := .ended } h
    rw [holds_of_permit (.inr hpc)] at hput
    exact hput
  | reaps h hpc => exact total_moves h (not_holds (.inr (.inr (.inr hpc)))) rfl
  | starts h hpc =>
    rename_i j m
    have hput := total_putMessage { m with pc := .running } s.value h
    rw [isLive_of_ne (by simp [hpc]), isLive_of_ne (by simp)] at hput
    exact Nat.add_right_cancel (Nat.add_right_cancel hput)
  | finishes h hpc =>
    rename_i j m
    have hput := total_putMessage { m with pc := .ended } (s.value + 1) h
    rw [isLive_of_ne (by simp [hpc]), not_live rfl] at hput
    simp only [Act.leaks, Bool.toNat_false, Bool.toNat_true] at hput ⊢
    omega
  | cancelsUnstarted h hpc =>
    rename_i j m
    have hput := total_putMessage { m with pc := .ended } s.value h
    rw [isLive_of_ne (by simp [hpc]), not_live rfl] at hput
    have hsame : total (s.putMessage j { m with pc := .ended }) + s.value + 1 = total s + s.value :=
      hput
    simp only [Act.leaks, Bool.toNat_true]
    omega
  | discards h hpc =>
    rename_i j m
    have hput := total_putMessage { m with registered := false } s.value h
    have hnew : ({ m with registered := false } : MessageTask).isLive = false := not_live hpc
    rw [not_live hpc, hnew] at hput
    exact Nat.add_right_cancel (Nat.add_right_cancel hput)
  | helps hk hpending hfree => exact total_help _ _
  | retries h => exact total_retry _ _
  | shuts hset hidle => rfl
  | gathers h hconsumers hmessages => rfl
  | closes h => rfl

/-- Permits are lost only in the steps that leak. -/
theorem run_total {maxConcurrentTasks : Nat} {steps : List (Backend × Act)}
    (hrun : Run maxConcurrentTasks steps s) :
    total s + steps.countP (fun step => step.2.leaks) = maxConcurrentTasks := by
  induction hrun with
  | start => rfl
  | @tail steps s a t hrun hstep ih =>
    have htotal := step_total hstep
    rw [List.countP_append, List.countP_singleton]
    simp only
    cases hleaks : a.leaks with
    | false =>
      rw [hleaks, Bool.toNat_false] at htotal
      rw [if_neg Bool.false_ne_true]
      omega
    | true =>
      rw [hleaks, Bool.toNat_true] at htotal
      rw [if_pos rfl]
      omega

/-- In every run the missing permits are those of the tasks of messages and of the consumers
with a permit exactly as long as no step was a leak, and there are never more of them than
the semaphore has. -/
theorem permits_conserved_iff_no_leak {maxConcurrentTasks : Nat} {steps : List (Backend × Act)}
    (hrun : Run maxConcurrentTasks steps s) :
    (s.value + (live s + holding s) = maxConcurrentTasks ↔ ∀ step ∈ steps, step.2.leaks = false) ∧
      live s + holding s ≤ maxConcurrentTasks := by
  have htotal := run_total hrun
  unfold total at htotal
  refine ⟨?_, by omega⟩
  constructor
  · intro h step hstep
    have hzero : steps.countP (fun step => step.2.leaks) = 0 := by omega
    simpa using List.countP_eq_zero.mp hzero step hstep
  · intro h
    have hzero : steps.countP (fun step => step.2.leaks) = 0 :=
      List.countP_eq_zero.mpr fun step hstep => by simp [h step hstep]
    omega

/-- The broadcast consumer at `get_message`. -/
def fetching (s : Backend) : Backend := s.put 1 { channel := .broadcast, pc := .fetching }

theorem run_fetching : Run 1 [(.configure 1, .other)] (fetching (.configure 1)) :=
  .tail .start (Step.loops (i := 1) (c := { channel := .broadcast }) rfl (.inl rfl))

/-- One message is received and its task is made. -/
theorem run_created :
    ∃ steps, Run 1 steps { fetching (.configure 1) with value := 0, messages := [{}] } ∧
    ∀ step ∈ steps, step.2.leaks = false := by
  refine ⟨_, .tail run_fetching (Step.receives (i := 1) (c :=
    { channel := .broadcast, pc := .fetching })
    rfl rfl (by decide) rfl (.creates rfl)), ?_⟩
  simp [Act.leaks]

theorem permits_conserved_iff_no_leak_created :
    ∃ steps s, Run 1 steps s ∧ live s = 1 ∧ s.value + (live s + holding s) = 1 := by
  obtain ⟨steps, hrun, hleaks⟩ := run_created
  exact ⟨steps, _, hrun, rfl, (permits_conserved_iff_no_leak hrun).1.mpr hleaks⟩

/-- The task of a message is cancelled before its first step, and its permit is gone. -/
theorem unstarted_task_leaks : ∃ steps s, Run 1 steps s ∧ live s + holding s = 0 ∧ s.value = 0 := by
  obtain ⟨steps, hrun, -⟩ := run_created
  exact ⟨_, _, .tail hrun (Step.cancelsUnstarted (j := 0) (m := {}) rfl rfl), rfl, rfl⟩

end Permits

section Deadlocks

/-- The consumer waits for the lock, itself or through a consumer that has a permit. -/
def Backend.WaitsForLock (s : Backend) (i : Nat) : Prop :=
  s.pcOf i = some .locking ∨ (s.pcOf i = some .acquiring ∧ ∃ j, s.pcOf j = some .locking)

/-- `shutdown` is at `gather`, and the consumer is one it waits for. -/
def Backend.Gathers (s : Backend) (i : Nat) : Prop :=
  ∃ consumers messages, s.shutdown = .gathering consumers messages ∧ i ∈ consumers

/-- `shutdown` has the lock and waits for a task that waits for the lock. -/
def Deadlocked (s : Backend) : Prop := ∃ i, s.Gathers i ∧ s.WaitsForLock i

/-- The condition on a step. While `shutdown` gathers, a consumer gets a message and a
permit, or goes on with one, only if it is not gathered and no gathered one waits for a
permit; and a gathered one does not begin to wait for a permit behind the lock. -/
def Harmless (s : Backend) : Act → Prop
  | .receives i | .resumes i => ¬ s.Gathers i ∧ ∀ k, s.Gathers k → s.pcOf k ≠ some .acquiring
  | .queues i => s.Gathers i → ∀ j, s.pcOf j ≠ some .locking
  | _ => True

variable {s t : Backend} {a : Act} {i : Nat} {c : Consumer}

theorem pcOf_eq (h : s.consumers[i]? = some c) : s.pcOf i = some c.pc := by
  rw [Backend.pcOf, h, Option.map_some]

theorem pcOf_put_self (c' : Consumer) (h : s.consumers[i]? = some c) :
    (s.put i c').pcOf i = some c'.pc := by
  obtain ⟨hlt, -⟩ := List.getElem?_eq_some_iff.mp h
  exact pcOf_eq (List.getElem?_set_self hlt)

theorem pcOf_put_ne (s : Backend) (c' : Consumer) {k : Nat} (h : k ≠ i) :
    (s.put i c').pcOf k = s.pcOf k := by
  rw [Backend.pcOf, Backend.put, List.getElem?_set_ne (Ne.symm h), Backend.pcOf]

/-- A step after which nobody waits who did not wait before it. -/
structure Quiet (s t : Backend) : Prop where
  gathers : ∀ k, t.Gathers k → s.Gathers k
  locking : ∀ k, t.pcOf k = some .locking → s.pcOf k = some .locking
  acquiring : ∀ k, t.pcOf k = some .acquiring → s.pcOf k = some .acquiring

theorem Quiet.not_deadlocked (hquiet : Quiet s t) (h : ¬ Deadlocked s) : ¬ Deadlocked t := by
  rintro ⟨k, hgathers, hlocking | ⟨hacquiring, j, hlocking⟩⟩
  · exact h ⟨k, hquiet.gathers k hgathers, .inl (hquiet.locking k hlocking)⟩
  · exact h ⟨k, hquiet.gathers k hgathers,
      .inr ⟨hquiet.acquiring k hacquiring, j, hquiet.locking j hlocking⟩⟩

/-- What else a step changes does not matter. -/
theorem Quiet.congr {u : Backend} (h : Quiet s u) (hshutdown : t.shutdown = u.shutdown)
    (hconsumers : t.consumers = u.consumers) : Quiet s t := by
  have hpc : ∀ k, t.pcOf k = u.pcOf k := fun k => by rw [Backend.pcOf, Backend.pcOf, hconsumers]
  refine ⟨fun k hk => h.gathers k ?_, fun k hk => h.locking k ?_, fun k hk => h.acquiring k ?_⟩
  · rwa [Backend.Gathers, hshutdown] at hk
  · rwa [hpc] at hk
  · rwa [hpc] at hk

theorem Quiet.refl (s : Backend) : Quiet s s := ⟨fun _ h => h, fun _ h => h, fun _ h => h⟩

theorem quiet_put {c' : Consumer} (h : s.consumers[i]? = some c) (hlocking : c'.pc ≠ .locking)
    (hacquiring : c'.pc ≠ .acquiring) : Quiet s (s.put i c') := by
  have hpc : ∀ pc k, pc ≠ c'.pc → (s.put i c').pcOf k = some pc → s.pcOf k = some pc := by
    intro pc k hne hk
    by_cases hki : k = i
    · subst hki
      rw [pcOf_put_self c' h] at hk
      exact absurd (Option.some.inj hk).symm hne
    · rwa [pcOf_put_ne s c' hki] at hk
  exact ⟨fun k hk => hk, fun k => hpc .locking k hlocking.symm,
    fun k => hpc .acquiring k hacquiring.symm⟩

theorem loopPc_cases (s : Backend) : s.loopPc = .ended ∨ s.loopPc = .fetching := by
  unfold Backend.loopPc
  cases s.shutdownEvent with
  | false => exact .inr rfl
  | true => exact .inl rfl

theorem quiet_loops (h : s.consumers[i]? = some c) :
    Quiet s (s.put i { c with pc := s.loopPc }) := by
  refine quiet_put h ?_ ?_
  · obtain hpc | hpc := loopPc_cases s <;> simp [hpc]
  · obtain hpc | hpc := loopPc_cases s <;> simp [hpc]

theorem quiet_help (s : Backend) (k : Nat) (h : Helper) : Quiet s (s.help k h) := by
  have hpc : ∀ n, (s.help k h).pcOf n = s.pcOf n := by
    intro n
    simp only [Backend.pcOf, Backend.help, List.getElem?_modify]
    cases s.consumers[n]? with
    | none => rfl
    | some c => simp only [Option.map_some]; split <;> rfl
  exact ⟨fun n hn => hn, fun n hn => (hpc n).symm.trans hn, fun n hn => (hpc n).symm.trans hn⟩

theorem quiet_setup (s : Backend) (channel : Channel) : Quiet s (s.setup channel) := by
  have hpc : ∀ pc n, pc ≠ .starting → (s.setup channel).pcOf n = some pc → s.pcOf n = some pc := by
    intro pc n hne hn
    simp only [Backend.pcOf, Backend.setup] at hn ⊢
    rw [List.getElem?_append] at hn
    split at hn
    · exact hn
    · rw [List.getElem?_singleton] at hn
      split at hn
      · cases hn
        exact absurd rfl hne
      · cases hn
  exact ⟨fun n hn => hn, fun n => hpc .locking n (by decide), fun n => hpc .acquiring n (by decide)⟩

theorem quiet_retry (s : Backend) (channel : Channel) (rest : List Channel) :
    Quiet s (s.retry channel rest) := by
  unfold Backend.retry
  split
  · exact (Quiet.refl s).congr rfl rfl
  · exact (quiet_setup s channel).congr rfl rfl

theorem not_gathers_of_free (h : s.lockHeld = false) (k : Nat) : ¬ s.Gathers k := by
  rintro ⟨consumers, messages, hgathering, -⟩
  simp [Backend.lockHeld, hgathering] at h

/-- A consumer with a permit waits for the lock. -/
def Waits (s : Backend) (i : Nat) (t : Backend) : Prop :=
  ∃ c, s.consumers[i]? = some c ∧ c.pc ≠ .acquiring ∧ s.shutdown ≠ .idle ∧ t.shutdown = s.shutdown ∧
    t.consumers = s.consumers.set i { c with pc := .locking }

theorem quiet_of_passes (h : s.consumers[i]? = some c) (hpc : c.pc ≠ .acquiring)
    (hpasses : Passes s i c t) :
    (s.lockHeld = false ∧ Quiet s t ∧ t.shutdown = s.shutdown) ∨ Waits s i t := by
  cases hpasses with
  | creates hfree => exact .inl ⟨hfree, (quiet_loops h).congr rfl rfl, rfl⟩
  | fails hfree => exact .inl ⟨hfree, (quiet_loops h).congr rfl rfl, rfl⟩
  | waits hcalled => exact .inr ⟨c, h, hpc, hcalled, rfl, rfl⟩

/-- What a step can do to those who wait. -/
theorem wait_cases (hstep : Step a s t) :
    (Quiet s t ∧ Harmless s a ∧ (t.shutdown = .idle → s.shutdown = .idle)) ∨
    (∃ i, (a = .receives i ∨ a = .resumes i) ∧ Waits s i t) ∨
    (∃ i c, a = .queues i ∧ s.consumers[i]? = some c ∧ c.pc = .fetching ∧
      t = s.put i { c with pc := .acquiring }) ∨
    (s.shutdown = .idle ∧ a = .other ∧ t = { s with shutdown := s.snapshot }) := by
  cases hstep with
  | sets => exact .inl ⟨(Quiet.refl s).congr rfl rfl, trivial, id⟩
  | loops h hpc => exact .inl ⟨quiet_loops h, trivial, id⟩
  | raises h hpc => exact .inl ⟨quiet_put h (by simp) (by simp), trivial, id⟩
  | receives h hpc hvalue hfirst hpasses =>
    rename_i i c
    obtain ⟨hfree, hquiet, hshutdown⟩ | hwaits :=
      quiet_of_passes (s := { s with value := s.value - 1 }) h (by simp [hpc]) hpasses
    · refine .inl ⟨⟨hquiet.gathers, hquiet.locking, hquiet.acquiring⟩, ?_,
        fun hidle => hshutdown.symm.trans hidle⟩
      exact ⟨not_gathers_of_free hfree i, fun k hk => absurd hk (not_gathers_of_free hfree k)⟩
    · exact .inr (.inl ⟨i, .inl rfl, hwaits⟩)
  | queues h hpc hlocked => exact .inr (.inr (.inl ⟨_, _, rfl, h, hpc, rfl⟩))
  | wakes h hpc hvalue =>
    rename_i i c
    have hquiet : Quiet s (s.put i { c with pc := .granted }) := quiet_put h (by simp) (by simp)
    exact .inl ⟨hquiet.congr rfl rfl, trivial, id⟩
  | resumes h hpc hpasses =>
    rename_i i c
    obtain ⟨hfree, hquiet, hshutdown⟩ | hwaits := quiet_of_passes h (by simp [hpc]) hpasses
    · refine .inl ⟨hquiet, ?_, fun hidle => hshutdown.symm.trans hidle⟩
      exact ⟨not_gathers_of_free hfree i, fun k hk => absurd hk (not_gathers_of_free hfree k)⟩
    · exact .inr (.inl ⟨i, .inr rfl, hwaits⟩)
  | enters h hpc hfree ht =>
    obtain rfl | rfl := ht
    · exact .inl ⟨(quiet_loops h).congr rfl rfl, trivial, id⟩
    · exact .inl ⟨(quiet_loops h).congr rfl rfl, trivial, id⟩
  | cancels h hpc => exact .inl ⟨quiet_put h (by simp) (by simp), trivial, id⟩
  | cancelsGranted h hpc =>
    rename_i i c
    have hquiet : Quiet s (s.put i { c with pc := .ended }) := quiet_put h (by simp) (by simp)
    exact .inl ⟨hquiet.congr rfl rfl, trivial, id⟩
  | cancelsAtLock h hpc => exact .inl ⟨quiet_put h (by simp) (by simp), trivial, id⟩
  | reaps h hpc =>
    rename_i i c
    have hquiet : Quiet s (s.put i { c with pc := .reaped }) := quiet_put h (by simp) (by simp)
    exact .inl ⟨hquiet.congr rfl rfl, trivial, id⟩
  | starts h hpc => exact .inl ⟨(Quiet.refl s).congr rfl rfl, trivial, id⟩
  | finishes h hpc => exact .inl ⟨(Quiet.refl s).congr rfl rfl, trivial, id⟩
  | cancelsUnstarted h hpc => exact .inl ⟨(Quiet.refl s).congr rfl rfl, trivial, id⟩
  | discards h hpc => exact .inl ⟨(Quiet.refl s).congr rfl rfl, trivial, id⟩
  | helps hk hpending hfree => exact .inl ⟨quiet_help s _ _, trivial, id⟩
  | retries h =>
    refine .inl ⟨quiet_retry s _ _, trivial, ?_⟩
    unfold Backend.retry
    split <;> exact id
  | shuts hset hidle => exact .inr (.inr (.inr ⟨hidle, rfl, rfl⟩))
  | gathers h hconsumers hmessages =>
    refine .inl ⟨⟨?_, fun _ hk => hk, fun _ hk => hk⟩, trivial, ?_⟩
    · rintro k ⟨consumers, messages, hclosing, -⟩
      cases hclosing
    · intro hclosing
      cases hclosing
  | closes h =>
    refine .inl ⟨⟨?_, fun _ hk => hk, fun _ hk => hk⟩, trivial, ?_⟩
    · rintro k ⟨consumers, messages, hreturned, -⟩
      cases hreturned
    · intro hreturned
      cases hreturned

/-- Before `shutdown` nobody waits for the lock. -/
def Unlocked (s : Backend) : Prop := s.shutdown = .idle → ∀ k, s.pcOf k ≠ some .locking

theorem Waits.pcOf (h : Waits s i t) (k : Nat) :
    t.pcOf k = if k = i then some .locking else s.pcOf k := by
  obtain ⟨c, hc, -, -, -, hconsumers⟩ := h
  have hput : t.pcOf k = (s.put i { c with pc := .locking }).pcOf k := by
    rw [Backend.pcOf, hconsumers]
    rfl
  rw [hput]
  split
  · rename_i hk
    rw [hk]
    exact pcOf_put_self _ hc
  · rename_i hk
    exact pcOf_put_ne s _ hk

/-- Before the shutdown no step makes anybody wait for the lock. -/
theorem step_unlocked (hstep : Step a s t) (h : Unlocked s) : Unlocked t := by
  intro hidle k hk
  obtain ⟨hquiet, -, hback⟩ | ⟨i, -, hwaits⟩ | ⟨i, c, -, hc, hpc, rfl⟩ | ⟨-, -, rfl⟩ :=
    wait_cases hstep
  · exact h (hback hidle) k (hquiet.locking k hk)
  · obtain ⟨c, -, -, hcalled, hshutdown, -⟩ := hwaits
    exact hcalled (hshutdown.symm.trans hidle)
  · by_cases hki : k = i
    · subst hki
      rw [pcOf_put_self _ hc] at hk
      cases hk
    · rw [pcOf_put_ne s _ hki] at hk
      exact h hidle k hk
  · cases hidle

/-- The lock is waited for by one more consumer. -/
theorem waits_deadlocked_iff (h : ¬ Deadlocked s) (hwaits : Waits s i t) :
    ¬ Deadlocked t ↔ ¬ s.Gathers i ∧ ∀ k, s.Gathers k → s.pcOf k ≠ some .acquiring := by
  have hpc := hwaits.pcOf
  obtain ⟨c, hc, hacquiring, -, hshutdown, -⟩ := hwaits
  have hgathers : ∀ k, t.Gathers k ↔ s.Gathers k := fun k => by
    rw [Backend.Gathers, Backend.Gathers, hshutdown]
  have hself : t.pcOf i = some .locking := by rw [hpc, if_pos rfl]
  constructor
  · intro hnot
    refine ⟨fun hi => hnot ⟨i, (hgathers i).mpr hi, .inl hself⟩, ?_⟩
    intro k hk hwaiting
    have hki : k ≠ i := by
      rintro rfl
      rw [pcOf_eq hc] at hwaiting
      exact hacquiring (Option.some.inj hwaiting)
    have hstill : t.pcOf k = some .acquiring := by rw [hpc, if_neg hki, hwaiting]
    exact hnot ⟨k, (hgathers k).mpr hk, .inr ⟨hstill, i, hself⟩⟩
  · rintro ⟨hi, hothers⟩ ⟨k, hk, hlocking | ⟨hwaiting, -⟩⟩
    · have hki : k ≠ i := by
        rintro rfl
        exact hi ((hgathers k).mp hk)
      rw [hpc, if_neg hki] at hlocking
      exact h ⟨k, (hgathers k).mp hk, .inl hlocking⟩
    · rw [hpc] at hwaiting
      split at hwaiting
      · cases hwaiting
      · exact hothers k ((hgathers k).mp hk) hwaiting

/-- Waiting for a permit is a deadlock, exactly when the shutdown gathers the consumer and
somebody waits for the lock. -/
theorem queues_deadlocked_iff (h : ¬ Deadlocked s) (hc : s.consumers[i]? = some c)
    (hpc : c.pc = .fetching) :
    ¬ Deadlocked (s.put i { c with pc := .acquiring }) ↔
      (s.Gathers i → ∀ j, s.pcOf j ≠ some .locking) := by
  have hself : (s.put i { c with pc := .acquiring }).pcOf i = some .acquiring := pcOf_put_self _ hc
  have hlocking : ∀ k, (s.put i { c with pc := .acquiring }).pcOf k = some .locking ↔
    s.pcOf k = some .locking := by
    intro k
    by_cases hki : k = i
    · subst hki
      rw [hself, pcOf_eq hc, hpc]
      simp
    · rw [pcOf_put_ne s _ hki]
  constructor
  · intro hnot hi j hj
    exact hnot ⟨i, hi, .inr ⟨hself, j, (hlocking j).mpr hj⟩⟩
  · rintro hcond ⟨k, hk, hwait | ⟨hwait, j, hj⟩⟩
    · exact h ⟨k, hk, .inl ((hlocking k).mp hwait)⟩
    · by_cases hki : k = i
      · subst hki
        exact hcond hk j ((hlocking j).mp hj)
      · rw [pcOf_put_ne s _ hki] at hwait
        exact h ⟨k, hk, .inr ⟨hwait, j, (hlocking j).mp hj⟩⟩

/-- One step: the condition is exact. -/
theorem step_deadlocked_iff (hstep : Step a s t) (hunlocked : Unlocked s) (h : ¬ Deadlocked s) :
    ¬ Deadlocked t ↔ Harmless s a := by
  obtain ⟨hquiet, hharmless, -⟩ | ⟨i, ha, hwaits⟩ | ⟨i, c, rfl, hc, hpc, rfl⟩ | ⟨hidle, rfl, rfl⟩ :=
    wait_cases hstep
  · exact iff_of_true (hquiet.not_deadlocked h) hharmless
  · obtain rfl | rfl := ha
    · exact waits_deadlocked_iff h hwaits
    · exact waits_deadlocked_iff h hwaits
  · exact queues_deadlocked_iff h hc hpc
  · refine iff_of_true ?_ trivial
    rintro ⟨k, -, hk | ⟨-, j, hj⟩⟩
    · exact hunlocked hidle k hk
    · exact hunlocked hidle j hj

/-- Before the shutdown nobody waits for the lock. -/
theorem run_unlocked {maxConcurrentTasks : Nat} {steps : List (Backend × Act)}
    (hrun : Run maxConcurrentTasks steps s) :
    Unlocked s := by
  induction hrun with
  | start =>
    intro _ k hk
    simp only [Backend.pcOf, Backend.configure, Backend.setup] at hk
    match k with
    | 0 => cases hk
    | 1 => cases hk
    | k + 2 => simp at hk
  | tail hrun hstep ih => exact step_unlocked hstep ih

/-- A run has no deadlock in any of its states if and only if all its steps are harmless. -/
theorem shutdown_never_deadlocks_iff {maxConcurrentTasks : Nat} {steps : List (Backend × Act)}
    (hrun : Run maxConcurrentTasks steps s) :
    ((∀ step ∈ steps, ¬ Deadlocked step.1) ∧ ¬ Deadlocked s) ↔
      ∀ step ∈ steps, Harmless step.1 step.2 := by
  induction hrun with
  | start =>
    refine iff_of_true ⟨by simp, ?_⟩ (by simp)
    rintro ⟨i, ⟨consumers, messages, hgathering, -⟩, -⟩
    cases hgathering
  | @tail steps s a t hrun hstep ih =>
    simp only [List.mem_append, List.mem_singleton, or_imp, forall_and, forall_eq]
    rw [← ih]
    constructor
    · rintro ⟨⟨hbefore, hs⟩, ht⟩
      exact ⟨⟨hbefore, hs⟩, (step_deadlocked_iff hstep (run_unlocked hrun) hs).mp ht⟩
    · rintro ⟨⟨hbefore, hs⟩, hharmless⟩
      exact ⟨⟨hbefore, hs⟩, (step_deadlocked_iff hstep (run_unlocked hrun) hs).mpr hharmless⟩

/-- The broadcast consumer is in the task set and at `get_message`, and `shutdown` gathers it. -/
def gathered : Backend :=
  { Backend.configure 1 with
    shutdownEvent := true
    consumers :=
      [{ channel := .send }, { channel := .broadcast, pc := .fetching, registered := true }]
    helpers := [{ adds := true, consumer := 0 }, { adds := true, consumer := 1, done := true }]
    shutdown := .gathering [1] [] }

theorem run_gathered : ∃ steps, Run 1 steps gathered ∧ ∀ step ∈ steps, Harmless step.1 step.2 := by
  have h₀ : Run 1 [] (.configure 1) := .start
  have h₁ := h₀.tail (Step.helps (k := 1) (h := ⟨true, 1, false⟩) rfl rfl rfl)
  have h₂ := h₁.tail (Step.loops (i := 1) (c := ⟨.broadcast, .starting, true⟩) rfl (.inl rfl))
  have h₃ := (h₂.tail Step.sets).tail (Step.shuts rfl rfl)
  exact ⟨_, h₃, by simp [Harmless]⟩

theorem shutdown_never_deadlocks_iff_gathered :
    ∃ steps, Run 1 steps gathered ∧ ¬ Deadlocked gathered := by
  obtain ⟨steps, hrun, hharmless⟩ := run_gathered
  exact ⟨steps, hrun, ((shutdown_never_deadlocks_iff hrun).mpr hharmless).2⟩

/-- A last message comes for it: it waits for the lock, and `shutdown` for it. -/
theorem last_message_deadlocks : ∃ steps s, Run 1 steps s ∧ Deadlocked s := by
  obtain ⟨steps, hrun, -⟩ := run_gathered
  have hreceives :=
    Step.receives (s := gathered) (i := 1) (c := ⟨.broadcast, .fetching, true⟩) rfl rfl (by decide)
    rfl (.waits (by simp [gathered]))
  exact ⟨_, _, hrun.tail hreceives, 1, ⟨[1], [], rfl, by decide⟩, .inl rfl⟩

end Deadlocks

end SocketBackend

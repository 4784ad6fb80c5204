import Jararaca.ProcessingSlots

/-!
# The callbacks of a worker

What happens to a delivery inside one consumer of worker.py: the callback of its queue
looks at the shutdown event and at the connection, takes the lock and makes a task, which
runs inside a processing slot. The coroutine of a callback stands at one of its awaits: it
has not begun, it waits for the answer to a reject, or it waits for the lock. The tasks,
their slots and their steps are those of the processing slots.

`tasks` is `AioPikaMicroserviceConsumer.tasks`; the tasks ever made, with the deliveries
they were made for, and the executed actions are records of the run.
-/
namespace Callbacks

open Messages ProcessingSlots

/-- What a scheduled action's callback reads of its declaration. -/
structure ActionSpec where
  allowOverlap : Bool := false
  parameters : Nat := 0

/-- Where a delivery stands. A reject that takes effect returns it to its queue, one that
fails leaves it nowhere; `skipped` keeps the task that stood in its way. -/
inductive Place where
  | arrived
  | rejecting
  | waitingLock
  | requeued
  | dropped
  | skipped (previous : Nat)
  | taken (task : Nat)
  deriving DecidableEq

/-- A delivery, with the callback object it was delivered to. -/
structure Incoming where
  object : Nat
  callback : Callback
  body : Bytes
  place : Place := .arrived

/-- The delivery is a trigger of a scheduled action. -/
def isTrigger (d : Incoming) : Bool :=
  match d.callback with
  | .messageHandler _ _ => false
  | .scheduledAction _ _ => true

/-- Where a call of `wait_all_tasks_done` stands. -/
inductive Drain where
  | idle
  | waiting (pending : List Nat)
  | returned

structure Worker (δ : Type) where
  consumer : Consumer := {}
  deliveries : List Incoming := []
  shutdownEvent : Bool := false
  connectionHealthy : Bool := true
  lockHeld : Bool := false
  tasks : List Nat := []
  /-- `_current_task` of each scheduled action's callback object -/
  currentTask : Nat → Option Nat := fun _ => none
  /-- the delivery of each task -/
  origins : List Incoming := []
  /-- the tasks that are entering the unit of work around their scheduled action -/
  entering : List Nat := []
  /-- the tasks that called their scheduled action -/
  executed : List Nat := []
  drains : δ → Drain := fun _ => .idle

def isEnded : Pc → Bool
  | .ended _ => true
  | _ => false

/-- `int(aio_pika_message.body.decode("utf-8"))`, where it does not raise. -/
def timestampOf (body : Bytes) : Option Int :=
  (String.fromUTF8? (ByteArray.mk body.toArray)).bind pyInt

/-- The action can be called with the arguments `handle_message` makes for it. -/
def ActionSpec.accepts (action : ActionSpec) (body : Bytes) : Bool :=
  action.parameters == 0 || (action.parameters == 1 && (timestampOf body).isSome)

namespace Worker

variable {δ : Type}

def isDone (s : Worker δ) (n : Nat) : Bool :=
  match s.consumer.tasks[n]? with
  | some task => isEnded task.pc
  | none => true

def put (s : Worker δ) (i : Nat) (d : Incoming) : Worker δ :=
  { s with deliveries := s.deliveries.set i d }

/-- The body of `async with self.consumer.lock`: a task is made and added. -/
def create (s : Worker δ) (i : Nat) (d : Incoming) : Worker δ :=
  { s with
    consumer := { s.consumer with tasks := s.consumer.tasks ++ [{ callback := d.callback }] }
    deliveries := s.deliveries.set i { d with place := .taken s.consumer.tasks.length }
    tasks := s.tasks ++ [s.consumer.tasks.length]
    origins := s.origins ++ [d]
    currentTask := match d.callback with
      | .messageHandler _ _ => s.currentTask
      | .scheduledAction _ _ =>
        Function.update s.currentTask d.object (some s.consumer.tasks.length) }

/-- With the lock: a scheduled action's callback looks at its current task first. -/
def proceed (s : Worker δ) (i : Nat) (d : Incoming) : Worker δ :=
  match d.callback with
  | .messageHandler _ _ => s.create i d
  | .scheduledAction _ _ =>
    match s.currentTask d.object with
    | none => s.create i d
    | some n => if s.isDone n then s.create i d else s.put i { d with place := .skipped n }

/-- `message_consumer` and `ScheduledMessageHandlerCallback.__call__` up to their first await.
The lock is taken without one where it is free. -/
def call (s : Worker δ) (i : Nat) (d : Incoming) : Worker δ :=
  if s.shutdownEvent || !s.connectionHealthy then s.put i { d with place := .rejecting }
  else if s.lockHeld then s.put i { d with place := .waitingLock }
  else s.proceed i d

/-- `handle_message` of a scheduled action gets as far as `run_with_context`. Where the event
is set or the connection is not healthy it rejects the message, which fails for one that
was consumed with `no_ack`. -/
def runsWithContext (actions : Nat → ActionSpec) (s : Worker δ) (n : Nat) : Bool :=
  match s.origins[n]? with
  | none => false
  | some d =>
    match d.callback with
    | .messageHandler _ _ => false
    | .scheduledAction _ _ =>
      !s.shutdownEvent && s.connectionHealthy && (actions d.object).accepts d.body

/-- The task enters its handler when the tasks of the consumer become those of `c`. -/
def starts (s : Worker δ) (c : Consumer) (n : Nat) : Bool :=
  match s.consumer.tasks[n]?, c.tasks[n]? with
  | some before, some after => !before.isRunning && after.isRunning
  | _, _ => false

/-- The tasks go on: those that enter their handler look at the event and the connection. -/
def progress (actions : Nat → ActionSpec) (s : Worker δ) (c : Consumer) : Worker δ :=
  { s with
    consumer := c
    entering := s.entering ++
      (List.range c.tasks.length).filter fun n => s.starts c n && s.runsWithContext actions n }

/-- The unit of work is entered and the action called. -/
def enter (s : Worker δ) (n : Nat) : Worker δ :=
  { s with entering := s.entering.erase n, executed := s.executed ++ [n] }

/-- `wait_all_tasks_done` looks which of `candidates` are pending. -/
def drain [DecidableEq δ] (s : Worker δ) (w : δ) (candidates : List Nat) : Worker δ :=
  let pending := candidates.filter fun n => !s.isDone n
  { s with
    drains := Function.update s.drains w (if pending = [] then .returned else .waiting pending) }

/-- With the lock a task is made, or the trigger is skipped for a task that is not done. -/
theorem proceed_cases (s : Worker δ) (i : Nat) (d : Incoming) :
    s.proceed i d = s.create i d ∨
      ∃ n, isTrigger d = true ∧ s.currentTask d.object = some n ∧ s.isDone n = false ∧
        s.proceed i d = s.put i { d with place := .skipped n } := by
  cases hcallback : d.callback with
  | messageHandler queue spec => exact .inl (by simp [proceed, hcallback])
  | scheduledAction queue spec =>
    cases hcurrent : s.currentTask d.object with
    | none => exact .inl (by simp [proceed, hcallback, hcurrent])
    | some n =>
      cases hdone : s.isDone n with
      | true => exact .inl (by simp [proceed, hcallback, hcurrent, hdone])
      | false =>
        exact .inr ⟨n, by simp [isTrigger, hcallback], rfl, hdone,
          by simp [proceed, hcallback, hcurrent, hdone]⟩

/-- While the lock is free a callback rejects its delivery or goes on without an await. -/
theorem call_cases (s : Worker δ) (i : Nat) (d : Incoming) (hfree : s.lockHeld = false) :
    ((s.shutdownEvent = true ∨ s.connectionHealthy = false) ∧
        s.call i d = s.put i { d with place := .rejecting }) ∨
      (s.shutdownEvent = false ∧ s.connectionHealthy = true ∧ s.call i d = s.proceed i d) := by
  cases hset : s.shutdownEvent with
  | true => exact .inl ⟨.inl rfl, by simp [call, hset]⟩
  | false =>
    cases hhealthy : s.connectionHealthy with
    | false => exact .inl ⟨.inr rfl, by simp [call, hhealthy]⟩
    | true => exact .inr ⟨rfl, rfl, by simp [call, hset, hhealthy, hfree]⟩

end Worker

inductive Act (δ : Type) where
  | delivers
  | calls (i : Nat)
  | answers (i : Nat)
  | progresses (c : Consumer)
  | enters (n : Nat)
  | discards (n : Nat)
  | shutsDown
  | healthChanges
  | waits (w : δ)

variable {δ : Type} [DecidableEq δ] (config : WorkerConfig) (actions : Nat → ActionSpec)

inductive Step : Act δ → Worker δ → Worker δ → Prop
  | delivers {s} (object : Nat) (callback : Callback) (body : Bytes) :
      Step .delivers s { s with deliveries := s.deliveries ++ [⟨object, callback, body, .arrived⟩] }
  | calls {s i d} (h : s.deliveries[i]? = some d) (hplace : d.place = .arrived) :
      Step (.calls i) s (s.call i d)
  | locks {s i d} (h : s.deliveries[i]? = some d) (hplace : d.place = .waitingLock)
      (hfree : s.lockHeld = false) : Step (.calls i) s (s.proceed i d)
  -- a message of a handler goes back to its queue
  | requeues {s i d queue spec} (h : s.deliveries[i]? = some d) (hplace : d.place = .rejecting)
      (hcallback : d.callback = .messageHandler queue spec) :
      Step (.answers i) s (s.put i { d with place := .requeued })
  -- the reject fails, as it always does for a message consumed with `no_ack`
  | drops {s i d} (h : s.deliveries[i]? = some d) (hplace : d.place = .rejecting) :
      Step (.answers i) s (s.put i { d with place := .dropped })
  | progresses {s c} (h : ProcessingSlots.Step config s.consumer c)
      (hsame : c.tasks.length = s.consumer.tasks.length) :
      Step (.progresses c) s (s.progress actions c)
  -- no interceptor refused: a task that ends while it enters never calls its action
  | enters {s n} (hmem : n ∈ s.entering) (hrunning : s.isDone n = false) :
      Step (.enters n) s (s.enter n)
  -- the done callback of a task
  | discards {s n} (h : s.isDone n = true) :
      Step (.discards n) s { s with tasks := s.tasks.filter (· != n) }
  | shutsDown {s} : Step .shutsDown s { s with shutdownEvent := true }
  | healthChanges {s} (healthy : Bool) :
      Step .healthChanges s { s with connectionHealthy := healthy }
  -- `wait_all_tasks_done` is called, after the event was set
  | waits {s} (w : δ) (hset : s.shutdownEvent = true) : Step (.waits w) s (s.drain w s.tasks)
  -- `asyncio.wait` returns when one of the pending tasks is done
  | polls {s pending n} (w : δ) (h : s.drains w = .waiting pending) (hmem : n ∈ pending)
      (hdone : s.isDone n = true) : Step (.waits w) s (s.drain w pending)

/-- A run whose steps all satisfy `P` in the state they start from. -/
def Runs (P : Worker δ → Act δ → Prop) : Worker δ → Worker δ → Prop :=
  Relation.ReflTransGen fun s t => ∃ a, Step config actions a s t ∧ P s a

def AnyRun : Worker δ → Worker δ → Prop := Runs config actions fun _ _ => True

variable {config} {actions} in
/-- A run under a condition is a run without it. -/
theorem Runs.any {P : Worker δ → Act δ → Prop} {s t : Worker δ} (h : Runs config actions P s t) :
    AnyRun config actions s t := by
  refine Relation.ReflTransGen.mono ?_ _ _ h
  rintro s t ⟨a, hstep, -⟩
  exact ⟨a, hstep, trivial⟩

/-- How the position of a task can change in one step. -/
inductive Moved : Pc → Pc → Prop
  | stays (pc : Pc) : Moved pc pc
  | waits (slot : Nat) : Moved .created (.waiting slot)
  | runsFree : Moved .created (.running none)
  | runs (slot : Nat) : Moved (.waiting slot) (.running (some slot))
  | ends (slot : Option Nat) (outcome : Reply) : Moved (.running slot) (.ended outcome)
  | cancelledEarly (outcome : Reply) : Moved .created (.ended outcome)
  | cancelledWaiting (slot : Nat) (outcome : Reply) : Moved (.waiting slot) (.ended outcome)

theorem enter_moved (c : Consumer) (i : Nat) (task : Task) (hpc : task.pc = .created) :
    ∃ new : Task, (c.enter config i task).tasks = c.tasks.set i new ∧ Moved task.pc new.pc := by
  refine ⟨_, rfl, ?_⟩
  rw [hpc]
  cases (getProcessingSlot config c.processingSlots (task.callback.channelId config)).2 with
  | none => exact .runsFree
  | some slot => exact .waits slot

variable {config}

/-- What one step does to each task. -/
theorem step_moved {c c' : Consumer} (h : ProcessingSlots.Step config c c') {n : Nat} {task : Task}
    (hn : c.tasks[n]? = some task) :
    ∃ task', c'.tasks[n]? = some task' ∧ Moved task.pc task'.pc := by
  -- one task is replaced, the others stay
  have hset : ∀ {i : Nat} {old new : Task}, c.tasks[i]? = some old → Moved old.pc new.pc →
      ∃ task', (c.tasks.set i new)[n]? = some task' ∧ Moved task.pc task'.pc := by
    intro i old new hi hmoved
    by_cases hin : i = n
    · subst hin
      rw [hn] at hi
      cases hi
      obtain ⟨hlt, -⟩ := List.getElem?_eq_some_iff.mp hn
      exact ⟨new, List.getElem?_set_self hlt, hmoved⟩
    · exact ⟨task, by rw [List.getElem?_set_ne hin, hn], .stays _⟩
  cases h with
  | delivers callback =>
    obtain ⟨hlt, -⟩ := List.getElem?_eq_some_iff.mp hn
    exact ⟨task, by rw [List.getElem?_append_left hlt, hn], .stays _⟩
  | begins hi hpc =>
    obtain ⟨new, htasks, hmoved⟩ := enter_moved config c _ _ hpc
    rw [htasks]
    exact hset hi hmoved
  | acquires hi hpc hj htaken => exact hset hi (by rw [hpc]; exact .runs _)
  | settles hi hpc => exact hset hi (.stays _)
  | finishes outcome hi hpc => exact hset hi (by rw [hpc]; exact .ends _ outcome)
  | cancelledEarly hi hpc => exact hset hi (by rw [hpc]; exact .cancelledEarly _)
  | cancelledWaiting hi hpc => exact hset hi (by rw [hpc]; exact .cancelledWaiting _ _)

end Callbacks

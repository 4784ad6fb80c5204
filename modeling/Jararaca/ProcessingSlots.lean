import Jararaca.Semaphores
import Jararaca.Messages
import Mathlib.Logic.Relation

/-!
# The processing slots of a channel

`AioPikaMicroserviceConsumer.processing_slot` of worker.py and the two callbacks that run
their handler inside it. A task stands at one of its awaits: not yet begun, waiting for
its slot, or between acquire and release. Everything between two awaits is one step, and
a task may be cancelled at each of them.
-/
namespace ProcessingSlots

open Messages Semaphores

/-- The part of `AioPikaWorkerConfig` that bounds the channels, with `DEFAULT_CHANNEL_ID`. -/
structure WorkerConfig where
  defaultPrefetchCount : Int
  prefetchByChannelId : String → Option Int
  sharedDefaultChannel : Bool
  defaultChannelId : String := "default"

/-- What receives deliveries: its queue and the channel its declaration asks for. -/
inductive Callback where
  | messageHandler (queueName : String) (specChannelId : Option String)
  | scheduledAction (queueName : String) (specChannelId : Option String)

/-- `spec.channel_id or (DEFAULT_CHANNEL_ID if shared_default_channel else queue_name)`. -/
def resolveChannelId (config : WorkerConfig) (queueName : String) (spec : Option String) : String :=
  match spec with
  | some id => if id = "" then fallback else id
  | none => fallback
where
  fallback : String := if config.sharedDefaultChannel then config.defaultChannelId else queueName

def Callback.channelId (config : WorkerConfig) : Callback → String
  | .messageHandler queueName spec => resolveChannelId config queueName spec
  | .scheduledAction queueName spec => resolveChannelId config queueName spec

def getChannelPrefetchCount (config : WorkerConfig) (channelId : String) : Int :=
  (config.prefetchByChannelId channelId).getD config.defaultPrefetchCount

/-- `get_processing_slot`: the place of the channel's semaphore, or none where the channel
is unbounded. -/
def getProcessingSlot (config : WorkerConfig) (slots : Table String) (channelId : String) :
    Table String × Option Nat :=
  if getChannelPrefetchCount config channelId ≤ 0 then (slots, none)
  else
    let found := slots.get channelId (getChannelPrefetchCount config channelId).toNat
    (found.1, some found.2)

/-- Where a task of `run_within_processing_slot` stands. `running none` is an execution on
an unbounded channel. -/
inductive Pc where
  | created
  | waiting (slot : Nat)
  | running (slot : Option Nat)
  | ended (outcome : Reply)

structure Task where
  callback : Callback
  pc : Pc := .created
  settled : Bool := false

structure Consumer where
  processingSlots : Table String := {}
  tasks : List Task := []

/-- The `i`-th task becomes `task`. -/
def Consumer.put (s : Consumer) (i : Nat) (task : Task) : Consumer :=
  { s with tasks := s.tasks.set i task }

/-- A task that begins: without a slot it runs at once. -/
def slotPc : Option Nat → Pc
  | none => .running none
  | some slot => .waiting slot

/-- What `async with slot` gives back when its body ends. -/
def releaseSlot (slots : Table String) : Option Nat → Table String
  | none => slots
  | some j => match slots.made[j]? with
    | none => slots
    | some semaphore => slots.put j semaphore.release

/-- A task runs up to its first await: it looks its slot up. -/
def Consumer.enter (config : WorkerConfig) (s : Consumer) (i : Nat) (task : Task) : Consumer :=
  let found := getProcessingSlot config s.processingSlots (task.callback.channelId config)
  Consumer.put { s with processingSlots := found.1 } i { task with pc := slotPc found.2 }

variable (config : WorkerConfig)

inductive Step : Consumer → Consumer → Prop
  | delivers {s} (callback : Callback) :
      Step s { s with tasks := s.tasks ++ [{ callback := callback }] }
  | begins {s i task} (h : s.tasks[i]? = some task) (hpc : task.pc = .created) :
      Step s (s.enter config i task)
  | acquires {s i task j semaphore taken} (h : s.tasks[i]? = some task) (hpc : task.pc = .waiting j)
      (hj : s.processingSlots.made[j]? = some semaphore) (htaken : semaphore.acquire = some taken) :
      Step s (Consumer.put { s with processingSlots := s.processingSlots.put j taken } i
        { task with pc := .running (some j) })
  -- the handler settles its message and goes on
  | settles {s i task slot} (h : s.tasks[i]? = some task) (hpc : task.pc = .running slot) :
      Step s (s.put i { task with settled := true })
  -- the handler returns, raises or is cancelled
  | finishes {s i task slot} (outcome : Reply) (h : s.tasks[i]? = some task)
      (hpc : task.pc = .running slot) :
      Step s (Consumer.put { s with processingSlots := releaseSlot s.processingSlots slot } i
        { task with pc := .ended outcome })
  | cancelledEarly {s i task} (h : s.tasks[i]? = some task) (hpc : task.pc = .created) :
      Step s (s.put i { task with pc := .ended (.error .cancelledError) })
  | cancelledWaiting {s i task j} (h : s.tasks[i]? = some task) (hpc : task.pc = .waiting j) :
      Step s (s.put i { task with pc := .ended (.error .cancelledError) })

def Runs : Consumer → Consumer → Prop := Relation.ReflTransGen (Step config)

/-- The task is between acquire and release. -/
def Task.isRunning (t : Task) : Bool :=
  match t.pc with
  | .running _ => true
  | _ => false

def executing (s : Consumer) (channelId : String) : Nat :=
  s.tasks.countP fun t => t.callback.channelId config == channelId && t.isRunning

/-- The task holds a permit of the `j`-th semaphore. -/
def Task.holds (j : Nat) (t : Task) : Bool :=
  match t.pc with
  | .running (some slot) => slot == j
  | _ => false

def Consumer.holding (s : Consumer) (j : Nat) : Nat := s.tasks.countP (Task.holds j)

def capacity (channelId : String) : Nat := (getChannelPrefetchCount config channelId).toNat

/-- The semaphore a task waits for or holds. -/
def Task.slot (t : Task) : Option Nat :=
  match t.pc with
  | .waiting j | .running (some j) => some j
  | _ => none

/-- The slot of a task is a semaphore of its channel; a task that runs without one belongs
to an unbounded channel. -/
structure Placed (slots : Table String) (t : Task) : Prop where
  slot : ∀ j, t.slot = some j → ∃ semaphore : Semaphore String,
    slots.made[j]? = some semaphore ∧ semaphore.key = t.callback.channelId config
  unbounded : t.pc = .running none →
    getChannelPrefetchCount config (t.callback.channelId config) ≤ 0

/-- The invariant: permits add up, and every task has the slot of its channel. -/
structure Sound (s : Consumer) : Prop where
  table : s.processingSlots.Consistent (capacity config) s.holding
  tasks : ∀ t ∈ s.tasks, Placed config s.processingSlots t

variable {config} {s t : Consumer} {i j : Nat} {old new : Task}

/-- Replacing one task, by the permits it held and holds. -/
theorem holding_put (h : s.tasks[i]? = some old) (new : Task) (j : Nat) :
    (s.put i new).holding j + (if old.holds j then 1 else 0) =
      s.holding j + (if new.holds j then 1 else 0) := by
  obtain ⟨hlt, hold⟩ := List.getElem?_eq_some_iff.mp h
  have hset := List.countP_set (p := Task.holds j) (a := new) hlt
  have hle := List.boole_getElem_le_countP (p := Task.holds j) hlt
  rw [hold] at hset hle
  simp only [Consumer.holding, Consumer.put]
  omega

theorem mem_put {task : Task} (h : task ∈ (s.put i new).tasks) : task ∈ s.tasks ∨ task = new :=
  List.mem_or_eq_of_mem_set h

/-- A task that changes neither its permit nor the table. -/
theorem Sound.put (hs : Sound config s) (h : s.tasks[i]? = some old)
    (hholds : ∀ j, new.holds j = old.holds j) (hplaced : Placed config s.processingSlots new) :
    Sound config (s.put i new) := by
  have hsame : (s.put i new).holding = s.holding := by
    funext j
    have hput := holding_put h new j
    rw [hholds j] at hput
    omega
  constructor
  · rw [hsame]
    exact hs.table
  · intro task htask
    obtain hold | rfl := mem_put htask
    · exact hs.tasks task hold
    · exact hplaced

theorem slot_of_holds {task : Task} (h : task.holds j = true) : task.slot = some j := by
  unfold Task.holds at h
  split at h
  · rename_i slot hpc
    simp [Task.slot, hpc, beq_iff_eq.mp h]
  · cases h

/-- Nobody holds a permit of a semaphore that was not made. -/
theorem Sound.holding_fresh (hs : Sound config s) :
    s.holding s.processingSlots.made.length = 0 := by
  rw [Consumer.holding, List.countP_eq_zero]
  intro task htask hholds
  obtain ⟨semaphore, hmade, -⟩ := (hs.tasks task htask).slot _ (slot_of_holds hholds)
  have hlt := (List.getElem?_eq_some_iff.mp hmade).1
  omega

/-- More semaphores, or other values of them, leave every task where it is. -/
theorem Placed.mono {slots slots' : Table String} {task : Task} (h : Placed config slots task)
    (hkeep : ∀ (j : Nat) (semaphore : Semaphore String), slots.made[j]? = some semaphore →
      ∃ semaphore', slots'.made[j]? = some semaphore' ∧ semaphore'.key = semaphore.key) :
    Placed config slots' task := by
  refine ⟨?_, h.unbounded⟩
  intro j hj
  obtain ⟨semaphore, hmade, hkey⟩ := h.slot j hj
  obtain ⟨semaphore', hmade', hkey'⟩ := hkeep j semaphore hmade
  exact ⟨semaphore', hmade', hkey'.trans hkey⟩

/-- A semaphore that only changes its value. -/
theorem put_keeps {slots : Table String} {semaphore : Semaphore String}
    (h : slots.made[j]? = some semaphore) (value : Nat) (k : Nat) (other : Semaphore String)
    (hk : slots.made[k]? = some other) :
    ∃ changed, (slots.put j { semaphore with value := value }).made[k]? = some changed ∧
      changed.key = other.key := by
  have hlt : j < slots.made.length := (List.getElem?_eq_some_iff.mp h).1
  by_cases hjk : j = k
  · subst hjk
    rw [h] at hk
    cases hk
    exact ⟨{ semaphore with value := value }, by simp [Table.put, hlt], rfl⟩
  · exact ⟨other, by simpa [Table.put, List.getElem?_set, hjk] using hk, rfl⟩

/-- The `i`-th task takes or gives back a permit of the `j`-th semaphore. -/
theorem Sound.exchange (hs : Sound config s) (h : s.tasks[i]? = some old)
    {semaphore : Semaphore String} (hj : s.processingSlots.made[j]? = some semaphore) {value : Nat}
    (hother : ∀ k, k ≠ j → new.holds k = old.holds k)
    (hvalue : value + (if new.holds j then 1 else 0) =
      semaphore.value + (if old.holds j then 1 else 0))
    (hplaced : Placed config s.processingSlots new) :
    Sound config (Consumer.put { s with
      processingSlots := s.processingSlots.put j { semaphore with value := value } } i new) := by
  have hkeep := put_keeps hj value
  have hput := fun k => holding_put h new k
  constructor
  · apply hs.table.put hj
    · have hbalanced := hs.table.balanced j semaphore hj
      have hheld := hput j
      simp only [Consumer.holding, Consumer.put] at hheld hbalanced ⊢
      omega
    · intro k hk
      have hheld := hput k
      rw [hother k hk] at hheld
      simp only [Consumer.holding, Consumer.put] at hheld ⊢
      omega
  · intro task htask
    obtain hold | rfl := mem_put htask
    · exact (hs.tasks task hold).mono hkeep
    · exact hplaced.mono hkeep

/-- A task without a slot that does not run. -/
theorem Placed.idle {slots : Table String} {task : Task} (hslot : task.slot = none)
    (hpc : task.pc ≠ .running none) : Placed config slots task := by
  constructor
  · intro j hj
    rw [hslot] at hj
    cases hj
  · intro hrun
    exact absurd hrun hpc

/-- A new task holds nothing. -/
theorem Sound.deliver (hs : Sound config s) (callback : Callback) :
    Sound config { s with tasks := s.tasks ++ [{ callback := callback }] } := by
  have hsame : Consumer.holding { s with tasks := s.tasks ++ [{ callback := callback }] } =
      s.holding := by
    funext j
    simp [Consumer.holding, Task.holds]
  constructor
  · rw [hsame]
    exact hs.table
  · intro task htask
    obtain hold | hnew := List.mem_append.mp htask
    · exact hs.tasks task hold
    · rw [List.mem_singleton.mp hnew]
      exact Placed.idle rfl (by simp)

/-- A task that looks its slot up. -/
theorem Sound.enter (hs : Sound config s) {task : Task} (h : s.tasks[i]? = some task)
    (hpc : task.pc = .created) : Sound config (s.enter config i task) := by
  have hnone : ∀ j, task.holds j = false := fun j => by simp [Task.holds, hpc]
  unfold Consumer.enter getProcessingSlot
  split
  · rename_i hle
    apply hs.put h
    · intro j
      rw [hnone j]
      rfl
    · constructor
      · intro j hj
        cases hj
      · intro _
        exact hle
  · rename_i hpos
    -- the table grows by the semaphore of the channel, if it had none
    have hgrown : Sound config { s with processingSlots := (s.processingSlots.get
        (task.callback.channelId config)
        (getChannelPrefetchCount config (task.callback.channelId config)).toNat).1 } := by
      constructor
      · exact hs.table.get _ _ rfl hs.holding_fresh
      · intro other hother
        exact (hs.tasks other hother).mono fun j semaphore hj =>
          ⟨semaphore, Table.get_keeps _ _ hj, rfl⟩
    apply hgrown.put h
    · intro j
      rw [hnone j]
      rfl
    · constructor
      · intro j hj
        cases hj
        exact Table.get_found _ _ hs.table
      · intro hrun
        cases hrun

/-- One step keeps the invariant. -/
theorem step_sound (hstep : Step config s t) (hs : Sound config s) : Sound config t := by
  cases hstep with
  | delivers callback => exact hs.deliver callback
  | begins h hpc => exact hs.enter h hpc
  | acquires h hpc hj htaken =>
    obtain ⟨hpos, rfl⟩ := Semaphore.acquire_eq htaken
    rename_i task j semaphore
    have hplaced := hs.tasks task (List.mem_of_getElem? h)
    apply hs.exchange h hj
    · intro k hk
      simp [Task.holds, hpc, Ne.symm hk]
    · simp only [Task.holds, hpc, beq_self_eq_true, if_true]
      simp
      omega
    · constructor
      · intro k hk
        exact hplaced.slot k (by rw [← hk]; simp [Task.slot, hpc])
      · intro hrun
        cases hrun
  | settles h hpc =>
    rename_i task slot
    have hplaced := hs.tasks task (List.mem_of_getElem? h)
    exact hs.put h (fun j => rfl) ⟨hplaced.slot, hplaced.unbounded⟩
  | finishes outcome h hpc =>
    rename_i task slot
    have hended : Placed config s.processingSlots { task with pc := .ended outcome } :=
      Placed.idle rfl (by simp)
    cases slot with
    | none => exact hs.put h (fun j => by simp [Task.holds, hpc]) hended
    | some j =>
      obtain ⟨semaphore, hj, -⟩ := (hs.tasks task (List.mem_of_getElem? h)).slot j
        (by simp [Task.slot, hpc])
      simp only [releaseSlot, hj]
      apply hs.exchange h hj
      · intro k hk
        simp [Task.holds, hpc, Ne.symm hk]
      · simp [Task.holds, hpc]
      · exact hended
  | cancelledEarly h hpc =>
    exact hs.put h (fun j => by simp [Task.holds, hpc]) (Placed.idle rfl (by simp))
  | cancelledWaiting h hpc =>
    exact hs.put h (fun j => by simp [Task.holds, hpc]) (Placed.idle rfl (by simp))

/-- Every run keeps the invariant. -/
theorem runs_sound (hrun : Runs config {} s) : Sound config s := by
  induction hrun with
  | refl =>
    constructor
    · exact Table.empty_consistent
    · intro task htask
      cases htask
  | tail _ hstep ih => exact step_sound hstep ih

/-- The executions of a bounded channel hold the permits of its semaphore. -/
theorem Sound.executing_le (hs : Sound config s) {channelId : String}
    (hpos : 0 < getChannelPrefetchCount config channelId) :
    executing config s channelId ≤ capacity config channelId := by
  -- an execution of the channel shows its semaphore
  by_cases hany :
    ∃ task ∈ s.tasks, task.callback.channelId config = channelId ∧ task.isRunning = true
  swap
  · have hzero : executing config s channelId = 0 := by
      rw [executing, List.countP_eq_zero]
      intro task htask hrun
      simp only [Bool.and_eq_true, beq_iff_eq] at hrun
      exact hany ⟨task, htask, hrun⟩
    omega
  have hslot : ∀ task ∈ s.tasks, task.callback.channelId config = channelId →
      task.isRunning = true → ∃ j, task.pc = .running (some j) ∧ ∃ semaphore : Semaphore String,
        s.processingSlots.made[j]? = some semaphore ∧ semaphore.key = channelId := by
    intro task htask hchannel hrun
    unfold Task.isRunning at hrun
    split at hrun
    · rename_i slot hpc
      cases slot with
      | none =>
        have hle := (hs.tasks task htask).unbounded hpc
        rw [hchannel] at hle
        omega
      | some j =>
        obtain ⟨semaphore, hj, hkey⟩ := (hs.tasks task htask).slot j (by simp [Task.slot, hpc])
        exact ⟨j, hpc, semaphore, hj, hkey.trans hchannel⟩
    · cases hrun
  obtain ⟨task, htask, hchannel, hrun⟩ := hany
  obtain ⟨j, -, semaphore, hj, hkey⟩ := hslot task htask hchannel hrun
  calc executing config s channelId
      ≤ s.holding j := by
        apply List.countP_mono_left
        intro other hother hboth
        simp only [Bool.and_eq_true, beq_iff_eq] at hboth
        obtain ⟨k, hpc, semaphore', hk, hkey'⟩ := hslot other hother hboth.1 hboth.2
        have hjk : j = k := hs.table.unique hj hk (hkey.trans hkey'.symm)
        simp [Task.holds, hpc, hjk]
    _ ≤ capacity config semaphore.key := hs.table.holders_le hj
    _ = capacity config channelId := by rw [hkey]

/-- Over every run a bounded channel never runs more handlers and actions than its
prefetch count, has one semaphore at most, and has all its slots back once its tasks
have ended. -/
theorem channel_bounded (config : WorkerConfig) {s : Consumer} (hrun : Runs config {} s)
    (channelId : String) (hpos : 0 < getChannelPrefetchCount config channelId) :
    (executing config s channelId : Int) ≤ getChannelPrefetchCount config channelId ∧
      (∀ (i j : Nat) (a b : Semaphore String), s.processingSlots.made[i]? = some a →
        s.processingSlots.made[j]? = some b → a.key = channelId → b.key = channelId → i = j) ∧
      ((∀ task ∈ s.tasks, task.callback.channelId config = channelId → ∃ outcome,
          task.pc = .ended outcome) →
        ∀ (j : Nat) (semaphore : Semaphore String), s.processingSlots.made[j]? = some semaphore →
          semaphore.key = channelId →
          (semaphore.value : Int) = getChannelPrefetchCount config channelId) := by
  have hs := runs_sound hrun
  have hcapacity :
      (capacity config channelId : Int) = getChannelPrefetchCount config channelId := by
    rw [capacity]
    omega
  refine ⟨?_, ?_, ?_⟩
  · have hle := hs.executing_le hpos
    omega
  · intro i j a b hi hj ha hb
    exact hs.table.unique hi hj (ha.trans hb.symm)
  · intro hended j semaphore hj hkey
    have hnone : s.holding j = 0 := by
      rw [Consumer.holding, List.countP_eq_zero]
      intro task htask hholds
      obtain ⟨semaphore', hj', hkey'⟩ := (hs.tasks task htask).slot j (slot_of_holds hholds)
      rw [hj] at hj'
      cases hj'
      obtain ⟨outcome, hpc⟩ := hended task htask (hkey'.symm.trans hkey)
      simp [Task.holds, hpc] at hholds
    have hfree := hs.table.free hj hnone
    rw [hkey] at hfree
    omega

section Shared

/-- A handler and a scheduled action share a channel with one slot. -/
def heavyConfig : WorkerConfig where
  defaultPrefetchCount := 4
  prefetchByChannelId id := if id = "heavy" then some 1 else none
  sharedDefaultChannel := true

def orders : Task where
  callback := .messageHandler "orders" (some "heavy")

def report : Task where
  callback := .scheduledAction "report" (some "heavy")

def competing : Consumer :=
  (Consumer.enter heavyConfig { tasks := [orders, report] } 0 orders).enter heavyConfig 1 report

def waitingOrders : Task := { orders with pc := .waiting 0 }

/-- The handler has the slot. -/
def busy : Consumer :=
  Consumer.put { competing with
    processingSlots := competing.processingSlots.put 0 ⟨"heavy", 1, 0⟩ } 0
    { waitingOrders with pc := .running (some 0) }

theorem busy_reached : Runs heavyConfig {} busy := by
  have h1 : Runs heavyConfig {} { tasks := [orders] } := .single (.delivers orders.callback)
  have h2 : Runs heavyConfig {} { tasks := [orders, report] } :=
    .tail h1 (.delivers report.callback)
  have h3 : Runs heavyConfig {}
    (Consumer.enter heavyConfig { tasks := [orders, report] } 0 orders) :=
    .tail h2 (.begins rfl rfl)
  have hreport : (Consumer.enter heavyConfig { tasks := [orders, report] } 0 orders).tasks[1]? =
      some report := rfl
  have h4 : Runs heavyConfig {} competing := .tail h3 (.begins hreport rfl)
  have hwaiting : competing.tasks[0]? = some waitingOrders := rfl
  have hfree : competing.processingSlots.made[0]? = some ⟨"heavy", 1, 1⟩ := rfl
  exact .tail h4 (.acquires hwaiting rfl hfree rfl)

/-- The channel runs one of its two tasks. -/
theorem busy_bounded :
    Runs heavyConfig {} busy ∧ 0 < getChannelPrefetchCount heavyConfig "heavy" ∧
      executing heavyConfig busy "heavy" = 1 ∧
      (executing heavyConfig busy "heavy" : Int) ≤ getChannelPrefetchCount heavyConfig "heavy" :=
  ⟨busy_reached, by decide, rfl, (channel_bounded heavyConfig busy_reached "heavy" (by decide)).1⟩

end Shared

end ProcessingSlots

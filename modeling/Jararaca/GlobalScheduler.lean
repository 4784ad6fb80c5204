import Jararaca.Semaphores
import Mathlib.Data.List.Infix
import Mathlib.Data.List.ModifyLast

/-!
# The global scheduler

`GlobalSchedulerController` of helpers/global_scheduler under the overlap guard of
`ScheduledMessageHandlerCallback`. A call of `trigger_scheduled_actions` makes a semaphore and a
task for every registered action, and returns: it awaits nothing. A schedule is any list of acts;
one that cannot happen changes nothing. What a trigger leaves running is bounded by its own
semaphore only, and the worker has forgotten it.
-/
namespace GlobalScheduler

open Semaphores (Semaphore)

variable {A : Type}

structure GlobalSchedulerConfig where
  maxConcurrentJobs : Nat := 10
  pos : 1 ≤ maxConcurrentJobs

/-- A task at `async with semaphore`, inside it, or ended. -/
inductive Stage where
  | waiting
  | running
  | finished (raised : Bool)
  deriving DecidableEq, Repr

structure Task (A : Type) where
  action : A
  stage : Stage

/-- What one call of `trigger_scheduled_actions` made. -/
structure Pool (A : Type) where
  trigger : Nat
  semaphore : Semaphore Unit
  tasks : List (Task A)

/-- The worker's task for a trigger: before the controller's coroutine returned, after that while
the unit of work is left, and done. -/
inductive Phase where
  | handling
  | returned
  | done
  deriving DecidableEq, Repr

structure Process (A : Type) where
  registry : List A := []
  triggers : List Phase := []
  pools : List (Pool A) := []

inductive Act (A : Type) where
  | register (action : A)
  | deliver
  | abandon (trigger : Nat)
  | call (trigger : Nat)
  | leave (trigger : Nat)
  | acquire (pool task : Nat)
  | finish (pool task : Nat) (raised : Bool)

namespace Pool

/-- `trigger_scheduled_actions`: the semaphore, and `create_task` for every registered action. -/
def create (config : GlobalSchedulerConfig) (trigger : Nat) (registry : List A) : Pool A where
  trigger := trigger
  semaphore := ⟨(), config.maxConcurrentJobs, config.maxConcurrentJobs⟩
  tasks := registry.map fun action => ⟨action, .waiting⟩

/-- `_run_with_semaphore` enters the semaphore. -/
def acquire (pool : Pool A) (j : Nat) : Pool A :=
  match pool.tasks[j]?, pool.semaphore.acquire with
  | some ⟨action, .waiting⟩, some semaphore =>
    { pool with semaphore := semaphore, tasks := pool.tasks.set j ⟨action, .running⟩ }
  | _, _ => pool

/-- The action returns or raises, and the semaphore is left. -/
def finish (pool : Pool A) (j : Nat) (raised : Bool) : Pool A :=
  match pool.tasks[j]? with
  | some ⟨action, .running⟩ =>
    { pool with
      semaphore := pool.semaphore.release
      tasks := pool.tasks.set j ⟨action, .finished raised⟩ }
  | _ => pool

def running (pool : Pool A) : Nat := pool.tasks.countP fun t => decide (t.stage = .running)

def Settled (pool : Pool A) : Prop := ∀ t ∈ pool.tasks, ∃ raised, t.stage = .finished raised

end Pool

namespace Process

/-- `self._current_task` is not done. A trigger is accepted only when all before it are, so this
is also whether `consumer.tasks` has one for the drain to wait for. -/
def busy (s : Process A) : Bool := s.triggers.any fun phase => decide (phase ≠ .done)

def running (s : Process A) : Nat :=
  (s.pools.flatMap Pool.tasks).countP fun t => decide (t.stage = .running)

end Process

def step (config : GlobalSchedulerConfig) (s : Process A) : Act A → Process A
  | .register action => { s with registry := s.registry ++ [action] }
  | .deliver => if s.busy then s else { s with triggers := s.triggers ++ [.handling] }
  | .abandon i =>
    if s.triggers[i]? = some .handling then { s with triggers := s.triggers.set i .done } else s
  | .call i =>
    if s.triggers[i]? = some .handling then
      { s with
        triggers := s.triggers.set i .returned
        pools := s.pools ++ [.create config i s.registry] }
    else s
  | .leave i =>
    if s.triggers[i]? = some .returned then { s with triggers := s.triggers.set i .done } else s
  | .acquire p j => { s with pools := s.pools.modify p fun pool => pool.acquire j }
  | .finish p j raised => { s with pools := s.pools.modify p fun pool => pool.finish j raised }

def exec (config : GlobalSchedulerConfig) (acts : List (Act A)) : Process A :=
  acts.foldl (step config) {}

/-- What the module promises in a state: no more actions running than configured, those of a
trigger whose coroutine has returned ended, and none left where the worker's guard would let the
next trigger in and its drain has nothing to wait for. -/
structure Guarantee (config : GlobalSchedulerConfig) (s : Process A) : Prop where
  bounded : s.running ≤ config.maxConcurrentJobs
  finished : ∀ pool ∈ s.pools, s.triggers[pool.trigger]? ≠ some .handling → pool.Settled
  covered : s.busy = false → ∀ pool ∈ s.pools, pool.Settled

/-! ## Runs -/

variable {config : GlobalSchedulerConfig}

theorem exec_append (before : List (Act A)) (a : Act A) :
    exec config (before ++ [a]) = step config (exec config before) a := by
  simp [exec]

/-- What holds at first and is kept by the steps of a run holds in every state of the run. -/
theorem run_invariant {P : Process A → Prop} {acts : List (Act A)} (h0 : P {})
    (hstep : ∀ before a, before ++ [a] <+: acts → P (exec config before) →
      P (step config (exec config before) a)) :
    ∀ before, before <+: acts → P (exec config before) := by
  intro before
  induction before using List.reverseRecOn with
  | nil => exact fun _ => h0
  | append_singleton before a ih =>
    intro h
    rw [exec_append]
    exact hstep before a h (ih ((List.prefix_append before [a]).trans h))

/-- The first `call` of a trigger that finds registered actions makes tasks that wait. -/
theorem call_waiting (before : List (Act A)) {i : Nat}
    (hi : (exec config before).triggers[i]? = some .handling)
    (h : Guarantee config (exec config (before ++ [.call i]))) :
    (exec config before).registry = [] := by
  rw [exec_append] at h
  have hfinished := h.finished (.create config i (exec config before).registry)
  simp only [step, if_pos hi] at hfinished
  have hsettled := hfinished (by simp) (by
    obtain ⟨hlt, -⟩ := List.getElem?_eq_some_iff.mp hi
    simp [Pool.create, hlt])
  apply List.eq_nil_iff_forall_not_mem.mpr
  intro action haction
  obtain ⟨raised, hraised⟩ := hsettled ⟨action, .waiting⟩ (List.mem_map.mpr ⟨action, haction, rfl⟩)
  cases hraised

namespace Pool

variable {pool : Pool A}

/-- Nothing happens any more in a pool whose tasks have ended. -/
theorem Settled.acquire (h : pool.Settled) (j : Nat) : pool.acquire j = pool := by
  unfold Pool.acquire
  split
  · rename_i hj _
    obtain ⟨raised, hraised⟩ := h _ (List.mem_of_getElem? hj)
    cases hraised
  · rfl

theorem Settled.finish (h : pool.Settled) (j : Nat) (raised : Bool) :
    pool.finish j raised = pool := by
  unfold Pool.finish
  split
  · rename_i hj
    obtain ⟨raised, hraised⟩ := h _ (List.mem_of_getElem? hj)
    cases hraised
  · rfl

theorem settled_of_empty (h : pool.tasks = []) : pool.Settled := by
  intro t ht
  rw [h] at ht
  cases ht

end Pool

theorem modify_of_fixed {τ : Type} {l : List τ} {f : τ → τ} (h : ∀ x ∈ l, f x = x) (n : Nat) :
    l.modify n f = l := by
  apply List.ext_getElem?
  intro i
  rw [List.getElem?_modify]
  split
  · cases hi : l[i]? with
    | none => rfl
    | some x => simp [h x (List.mem_of_getElem? hi)]
  · simp

/-- Nothing runs in pools whose tasks have ended. -/
theorem countP_running_of_settled {pools : List (Pool A)} (h : ∀ pool ∈ pools, pool.Settled) :
    (pools.flatMap Pool.tasks).countP (fun t => decide (t.stage = .running)) = 0 := by
  apply List.countP_eq_zero.mpr
  intro t ht
  obtain ⟨pool, hpool, ht⟩ := List.mem_flatMap.mp ht
  obtain ⟨raised, hraised⟩ := h pool hpool t ht
  simp [hraised]

/-- Where every task of every pool has ended the guarantee holds. -/
theorem guarantee_of_settled {s : Process A} (h : ∀ pool ∈ s.pools, pool.Settled) :
    Guarantee config s := by
  constructor
  case bounded =>
    rw [Process.running, countP_running_of_settled h]
    exact Nat.zero_le _
  case finished => exact fun pool hpool _ => h pool hpool
  case covered => exact fun _ pool hpool => h pool hpool

/-- While nothing is registered, no trigger makes a task. -/
theorem step_empty {s : Process A} {a : Act A} (h : ∀ pool ∈ s.pools, pool.tasks = [])
    (hcall : ∀ i, a = .call i → s.triggers[i]? = some .handling → s.registry = []) :
    ∀ pool ∈ (step config s a).pools, pool.tasks = [] := by
  have hsettled : ∀ pool ∈ s.pools, pool.Settled := fun pool hpool =>
    Pool.settled_of_empty (h pool hpool)
  cases a with
  | register action => exact h
  | deliver => simp only [step]; split <;> exact h
  | abandon i => simp only [step]; split <;> exact h
  | leave i => simp only [step]; split <;> exact h
  | call i =>
    simp only [step]
    split
    · rename_i hi
      intro pool hpool
      obtain hpool | hpool := List.mem_append.mp hpool
      · exact h pool hpool
      · rw [List.mem_singleton.mp hpool]
        simp [Pool.create, hcall i rfl hi]
    · exact h
  | acquire p j =>
    simp only [step]
    rwa [modify_of_fixed fun pool hpool => (hsettled pool hpool).acquire j]
  | finish p j raised =>
    simp only [step]
    rwa [modify_of_fixed fun pool hpool => (hsettled pool hpool).finish j raised]

/-- A run keeps the promise exactly when every trigger in it finds nothing registered. -/
theorem guarantee_iff (config : GlobalSchedulerConfig) (acts : List (Act A)) :
    (∀ before, before <+: acts → Guarantee config (exec config before)) ↔
      ∀ before i, before ++ [.call i] <+: acts →
        (exec config before).triggers[i]? = some .handling →
          (exec config before).registry = [] := by
  constructor
  · intro h before i hbefore hi
    exact call_waiting before hi (h _ hbefore)
  · intro h before hbefore
    have hempty : ∀ before, before <+: acts →
        ∀ pool ∈ (exec config before).pools, pool.tasks = [] :=
      run_invariant (P := fun s => ∀ pool ∈ s.pools, pool.tasks = [])
        (fun _ hpool => nomatch hpool) fun before a ha hprevious =>
          step_empty hprevious fun i hi hhandling => h before i (hi ▸ ha) hhandling
    exact guarantee_of_settled fun pool hpool =>
      Pool.settled_of_empty (hempty before hbefore pool hpool)

/-- One job at a time, and an action that is still running when the next trigger comes. -/
def oneJob : GlobalSchedulerConfig := ⟨1, le_rfl⟩

def overlapping : List (Act Unit) :=
  [.register (), .deliver, .call 0, .acquire 0 0, .leave 0, .deliver, .call 1, .acquire 1 0]

/-- Two triggers of one action, both running. -/
theorem two_triggers_two_running :
    ¬ ∀ before, before <+: overlapping → Guarantee oneJob (exec oneJob before) := by
  intro h
  have hbounded := (h overlapping (List.prefix_refl _)).bounded
  exact absurd hbounded (by decide)

/-! ## Triggers that come one after another -/

/-- The permits and the running tasks of a pool add up. -/
def Pool.Balanced (config : GlobalSchedulerConfig) (pool : Pool A) : Prop :=
  pool.semaphore.value + pool.running = config.maxConcurrentJobs

namespace Pool

variable {pool : Pool A}

theorem create_balanced (i : Nat) (registry : List A) :
    (create config i registry).Balanced config := by
  have hzero : (create config i registry).running = 0 := by
    apply List.countP_eq_zero.mpr
    intro t ht
    obtain ⟨action, _, rfl⟩ := List.mem_map.mp ht
    simp
  rw [Balanced, hzero]
  rfl

/-- A task that is replaced counts as its new stage says. -/
theorem running_set {j : Nat} {task : Task A} (h : pool.tasks[j]? = some task) (new : Task A)
    (semaphore : Semaphore Unit) :
    ({ pool with semaphore := semaphore, tasks := pool.tasks.set j new } : Pool A).running +
        (if task.stage = .running then 1 else 0) =
      pool.running + (if new.stage = .running then 1 else 0) := by
  obtain ⟨hlt, hj⟩ := List.getElem?_eq_some_iff.mp h
  have hpos : task.stage = .running → 0 < pool.running := fun hrunning =>
    List.countP_pos_iff.mpr ⟨task, List.mem_of_getElem? h, by simp [hrunning]⟩
  unfold running at hpos ⊢
  rw [List.countP_set hlt, hj]
  simp only [decide_eq_true_eq]
  split <;> split <;> simp_all

/-- Taking a permit keeps the permits and their holders in balance. -/
theorem Balanced.acquire (h : pool.Balanced config) (j : Nat) :
    (pool.acquire j).Balanced config := by
  unfold Pool.acquire
  split
  · rename_i action semaphore hj hacquire
    obtain ⟨hpos, rfl⟩ := Semaphores.Semaphore.acquire_eq hacquire
    have hset := running_set hj ⟨action, .running⟩
      { pool.semaphore with value := pool.semaphore.value - 1 }
    simp only [reduceCtorEq, if_false, if_true] at hset
    unfold Balanced at h ⊢
    simp only
    omega
  · exact h

theorem Balanced.finish (h : pool.Balanced config) (j : Nat) (raised : Bool) :
    (pool.finish j raised).Balanced config := by
  unfold Pool.finish
  split
  · rename_i action hj
    have hset := running_set hj ⟨action, .finished raised⟩ pool.semaphore.release
    simp only [reduceCtorEq, if_false, if_true] at hset
    unfold Balanced at h ⊢
    simp only [Semaphores.Semaphore.release] at hset ⊢
    omega
  · exact h

theorem Balanced.running_le (h : pool.Balanced config) :
    pool.running ≤ config.maxConcurrentJobs := by
  unfold Balanced at h
  omega

end Pool

/-- Each pool is balanced, and all pools but the last one have ended. -/
structure Spaced (config : GlobalSchedulerConfig) (s : Process A) : Prop where
  balanced : ∀ pool ∈ s.pools, pool.Balanced config
  before : ∀ pool ∈ s.pools.dropLast, pool.Settled

/-- Changing one pool keeps this, where the change keeps the balance and leaves what has ended. -/
theorem Spaced.modify {s : Process A} (h : Spaced config s) (p : Nat) {f : Pool A → Pool A}
    (hbalanced : ∀ pool, pool.Balanced config → (f pool).Balanced config)
    (hsettled : ∀ pool, pool.Settled → f pool = pool) :
    Spaced config { s with pools := s.pools.modify p f } := by
  constructor
  case balanced =>
    intro pool hpool
    obtain ⟨i, hi⟩ := List.getElem?_of_mem hpool
    rw [List.getElem?_modify] at hi
    split at hi
    · obtain ⟨old, hold, rfl⟩ := Option.map_eq_some_iff.mp hi
      exact hbalanced old (h.balanced old (List.mem_of_getElem? hold))
    · exact h.balanced pool (List.mem_of_getElem? (by simpa using hi))
  case before =>
    intro pool hpool
    obtain ⟨i, hi⟩ := List.getElem?_of_mem hpool
    simp only [List.getElem?_dropLast, List.length_modify, List.getElem?_modify] at hi
    split at hi
    · rename_i hlt
      obtain ⟨old, hold, hpool⟩ := Option.map_eq_some_iff.mp hi
      have hmem : old ∈ s.pools.dropLast :=
        List.mem_of_getElem? (by rw [List.getElem?_dropLast, if_pos hlt, hold])
      have hold := h.before old hmem
      split at hpool
      · rw [hsettled old hold] at hpool
        exact hpool ▸ hold
      · exact hpool ▸ hold
    · cases hi

/-- A step keeps the pools spaced, where a trigger comes only after the actions before it. -/
theorem step_spaced {s : Process A} {a : Act A} (h : Spaced config s)
    (hcall : ∀ i, a = .call i → s.triggers[i]? = some .handling → ∀ pool ∈ s.pools, pool.Settled) :
    Spaced config (step config s a) := by
  cases a with
  | register action => exact ⟨h.balanced, h.before⟩
  | deliver => simp only [step]; split <;> exact ⟨h.balanced, h.before⟩
  | abandon i => simp only [step]; split <;> exact ⟨h.balanced, h.before⟩
  | leave i => simp only [step]; split <;> exact ⟨h.balanced, h.before⟩
  | call i =>
    simp only [step]
    split
    · rename_i hi
      constructor
      case balanced =>
        intro pool hpool
        obtain hpool | hpool := List.mem_append.mp hpool
        · exact h.balanced pool hpool
        · rw [List.mem_singleton.mp hpool]
          exact Pool.create_balanced i s.registry
      case before =>
        intro pool hpool
        rw [List.dropLast_concat] at hpool
        exact hcall i rfl hi pool hpool
    · exact ⟨h.balanced, h.before⟩
  | acquire p j =>
    exact h.modify p (fun _ hpool => hpool.acquire j) fun _ hpool => hpool.acquire j
  | finish p j raised =>
    exact h.modify p (fun _ hpool => hpool.finish j raised) fun _ hpool => hpool.finish j raised

theorem Spaced.running_le {s : Process A} (h : Spaced config s) :
    s.running ≤ config.maxConcurrentJobs := by
  obtain hnil | ⟨before, last, hpools⟩ := List.eq_nil_or_concat s.pools
  · simp [Process.running, hnil]
  · have hbefore :=
      countP_running_of_settled fun pool hpool => h.before pool (by simpa [hpools] using hpool)
    have hlast := (h.balanced last (by simp [hpools])).running_le
    rw [Process.running, hpools, List.concat_eq_append, List.flatMap_append,
      List.countP_append, hbefore,
      Nat.zero_add, List.flatMap_singleton]
    exact hlast

/-- The bound alone holds where every trigger comes after the actions of the ones before have
ended, which is what nothing in the module sees to. -/
theorem bounded_when_spaced {acts : List (Act A)}
    (h : ∀ before i, before ++ [.call i] <+: acts →
      (exec config before).triggers[i]? = some .handling →
        ∀ pool ∈ (exec config before).pools, pool.Settled) :
    ∀ before, before <+: acts → (exec config before).running ≤ config.maxConcurrentJobs := by
  intro before hbefore
  have hspaced := run_invariant (P := Spaced config)
    ⟨fun _ hpool => (nomatch hpool), fun _ hpool => (nomatch hpool)⟩
    (fun before a ha hprevious => step_spaced hprevious fun i hi hhandling =>
      h before i (hi ▸ ha) hhandling)
  exact (hspaced before hbefore).running_le

end GlobalScheduler

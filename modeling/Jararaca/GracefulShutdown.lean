import Jararaca.Callbacks

/-!
# The worker drains before it stops

`wait_all_tasks_done` works on a snapshot of the task set. It misses nothing, because a
callback does not suspend between its look at the shutdown event and the registration of
its task: once the event is set, no task is made.
-/
namespace GracefulShutdown

open ProcessingSlots Callbacks

variable {δ : Type} {config : WorkerConfig} {actions : Nat → ActionSpec} {s t : Worker δ}

/-- The invariant. The lock is free between two awaits and nobody waits for it, every task
that is not done is in the task set, a drain has all of them in its snapshot, and a drain
that returned left none. -/
structure Kept (s : Worker δ) : Prop where
  unlocked : s.lockHeld = false
  passing : ∀ d ∈ s.deliveries, d.place ≠ .waitingLock
  registered : ∀ n, s.isDone n = false → n ∈ s.tasks
  draining : ∀ w pending, s.drains w = .waiting pending →
    s.shutdownEvent = true ∧ ∀ n, s.isDone n = false → n ∈ pending
  drained : ∀ w, s.drains w = .returned → s.shutdownEvent = true ∧ ∀ n, s.isDone n = true

/-- A task that has ended stays ended. -/
theorem step_ended {c c' : Consumer} (h : ProcessingSlots.Step config c c') {n : Nat} {task : Task}
    (hn : c.tasks[n]? = some task) (hended : isEnded task.pc = true) :
    ∃ task', c'.tasks[n]? = some task' ∧ isEnded task'.pc = true := by
  obtain ⟨task', hn', hmoved⟩ := step_moved h hn
  refine ⟨task', hn', ?_⟩
  generalize task.pc = before at hmoved hended
  generalize task'.pc = after at hmoved ⊢
  cases hmoved with
  | stays => exact hended
  | ends => rfl
  | cancelledEarly => rfl
  | cancelledWaiting => rfl
  | waits => cases hended
  | runsFree => cases hended
  | runs => cases hended

/-- A task that is done stays done while the tasks go on. -/
theorem progress_done {c : Consumer} (h : ProcessingSlots.Step config s.consumer c)
    (hsame : c.tasks.length = s.consumer.tasks.length) {n : Nat} (hdone : s.isDone n = true) :
    (s.progress actions c).isDone n = true := by
  cases hn : s.consumer.tasks[n]? with
  | none =>
    have hnone : c.tasks[n]? = none := by
      rw [List.getElem?_eq_none_iff] at hn ⊢
      omega
    simp [Worker.isDone, Worker.progress, hnone]
  | some task =>
    have hended : isEnded task.pc = true := by simpa [Worker.isDone, hn] using hdone
    obtain ⟨task', hn', hended'⟩ := step_ended h hn hended
    simpa [Worker.isDone, Worker.progress, hn'] using hended'

theorem create_done {i n : Nat} {d : Incoming} (h : (s.create i d).isDone n = false) :
    s.isDone n = false ∨ n = s.consumer.tasks.length := by
  obtain hlt | rfl | hgt := Nat.lt_trichotomy n s.consumer.tasks.length
  · left
    simpa [Worker.isDone, Worker.create, List.getElem?_append_left hlt] using h
  · exact .inr rfl
  · have hnone : (s.consumer.tasks ++ [{ callback := d.callback }])[n]? = none := by
      rw [List.getElem?_eq_none_iff, List.length_append]
      exact hgt
    simp [Worker.isDone, Worker.create, hnone] at h

/-- Moving a delivery keeps the invariant, as long as it does not wait for the lock. -/
theorem Kept.put (h : Kept s) (i : Nat) {d : Incoming} (hplace : d.place ≠ .waitingLock) :
    Kept (s.put i d) := by
  refine ⟨h.unlocked, ?_, h.registered, h.draining, h.drained⟩
  intro d' hd'
  obtain hold | rfl := List.mem_or_eq_of_mem_set hd'
  · exact h.passing d' hold
  · exact hplace

/-- A task is made only before the event is set, when no drain has begun. -/
theorem Kept.create (h : Kept s) (i : Nat) (d : Incoming) (hset : s.shutdownEvent = false) :
    Kept (s.create i d) := by
  constructor
  · exact h.unlocked
  · intro d' hd'
    obtain hold | rfl := List.mem_or_eq_of_mem_set hd'
    · exact h.passing d' hold
    · simp
  · intro n hn
    obtain hold | rfl := create_done hn
    · exact List.mem_append_left _ (h.registered n hold)
    · exact List.mem_append_right _ (List.mem_singleton_self _)
  · intro w pending hw
    have hbegun := (h.draining w pending hw).1
    rw [hset] at hbegun
    cases hbegun
  · intro w hw
    have hbegun := (h.drained w hw).1
    rw [hset] at hbegun
    cases hbegun

/-- So does going on with one before the shutdown. -/
theorem Kept.proceed (h : Kept s) (i : Nat) (d : Incoming) (hset : s.shutdownEvent = false) :
    Kept (s.proceed i d) := by
  obtain hcreate | ⟨n, -, -, -, hskip⟩ := s.proceed_cases i d
  · rw [hcreate]
    exact h.create i d hset
  · rw [hskip]
    exact h.put i (by simp)

/-- So does calling its callback. -/
theorem Kept.call (h : Kept s) (i : Nat) (d : Incoming) : Kept (s.call i d) := by
  obtain ⟨-, hcall⟩ | ⟨hset, -, hcall⟩ := s.call_cases i d h.unlocked
  · rw [hcall]
    exact h.put i (by simp)
  · rw [hcall]
    exact h.proceed i d hset

theorem Kept.progress (h : Kept s) {c : Consumer} (hstep : ProcessingSlots.Step config s.consumer c)
    (hsame : c.tasks.length = s.consumer.tasks.length) : Kept (s.progress actions c) := by
  have hpending : ∀ n, (s.progress actions c).isDone n = false → s.isDone n = false := by
    intro n hn
    by_contra hdone
    rw [progress_done hstep hsame (by simpa using hdone)] at hn
    cases hn
  refine ⟨h.unlocked, h.passing, fun n hn => h.registered n (hpending n hn), ?_, ?_⟩
  · intro w pending hw
    obtain ⟨hset, hall⟩ := h.draining w pending hw
    exact ⟨hset, fun n hn => hall n (hpending n hn)⟩
  · intro w hw
    obtain ⟨hset, hall⟩ := h.drained w hw
    exact ⟨hset, fun n => progress_done hstep hsame (hall n)⟩

/-- A drain whose candidates are all the tasks that are not done. -/
theorem Kept.drain [DecidableEq δ] (h : Kept s) (w : δ) {candidates : List Nat}
    (hset : s.shutdownEvent = true) (hall : ∀ n, s.isDone n = false → n ∈ candidates) :
    Kept (s.drain w candidates) := by
  have hpending : ∀ n, s.isDone n = false → n ∈ candidates.filter fun n => !s.isDone n := by
    intro n hn
    simp [hall n hn, hn]
  refine ⟨h.unlocked, h.passing, h.registered, ?_, ?_⟩
  · intro w' pending hw'
    by_cases hw : w' = w
    · subst hw
      simp only [Worker.drain, Function.update_self] at hw'
      split at hw'
      · cases hw'
      · cases hw'
        exact ⟨hset, hpending⟩
    · simp only [Worker.drain, Function.update_of_ne hw] at hw'
      exact h.draining w' pending hw'
  · intro w' hw'
    by_cases hw : w' = w
    · subst hw
      simp only [Worker.drain, Function.update_self] at hw'
      split at hw'
      · rename_i hnil
        refine ⟨hset, fun n => ?_⟩
        by_contra hdone
        have hmem := hpending n (Bool.eq_false_iff.mpr hdone)
        rw [hnil] at hmem
        cases hmem
      · cases hw'
    · simp only [Worker.drain, Function.update_of_ne hw] at hw'
      exact h.drained w' hw'

variable [DecidableEq δ]

/-- Every step keeps the invariant. -/
theorem step_kept {a : Act δ} (hstep : Callbacks.Step config actions a s t)
    (h : Kept s) : Kept t := by
  cases hstep with
  | delivers object callback body =>
    refine ⟨h.unlocked, ?_, h.registered, h.draining, h.drained⟩
    intro d hd
    obtain hold | hnew := List.mem_append.mp hd
    · exact h.passing d hold
    · rw [List.mem_singleton.mp hnew]
      simp
  | calls hd hplace => exact h.call _ _
  | locks hd hplace hfree => exact absurd hplace (h.passing _ (List.mem_of_getElem? hd))
  | requeues hd hplace hcallback => exact h.put _ (by simp)
  | drops hd hplace => exact h.put _ (by simp)
  | progresses hstep hsame => exact h.progress hstep hsame
  | enters hmem hrunning => exact ⟨h.unlocked, h.passing, h.registered, h.draining, h.drained⟩
  | discards hdone =>
    rename_i n
    refine ⟨h.unlocked, h.passing, ?_, h.draining, h.drained⟩
    intro n' hn'
    have hne : n' ≠ n := by
      rintro rfl
      rw [show s.isDone n' = false from hn'] at hdone
      cases hdone
    exact List.mem_filter.mpr ⟨h.registered n' hn', by simpa using hne⟩
  | shutsDown =>
    refine ⟨h.unlocked, h.passing, h.registered, ?_, ?_⟩
    · intro w pending hw
      exact ⟨rfl, (h.draining w pending hw).2⟩
    · intro w hw
      exact ⟨rfl, (h.drained w hw).2⟩
  | healthChanges healthy => exact ⟨h.unlocked, h.passing, h.registered, h.draining, h.drained⟩
  | waits w hset => exact h.drain w hset h.registered
  | polls w hw hmem hdone =>
    obtain ⟨hset, hall⟩ := h.draining w _ hw
    exact h.drain w hset hall

omit [DecidableEq δ] in
theorem start_kept : Kept ({} : Worker δ) := by
  refine ⟨rfl, by simp, ?_, ?_, ?_⟩
  · intro n hn
    simp [Worker.isDone] at hn
  · intro w pending hw
    cases hw
  · intro w hw
    cases hw

/-- It holds in every run. -/
theorem run_kept (hrun : AnyRun config actions {} s) : Kept s := by
  induction hrun with
  | refl => exact start_kept
  | tail _ hstep ih =>
    obtain ⟨a, hstep, -⟩ := hstep
    exact step_kept hstep ih

/-- What holds from the moment the event is set: the tasks are `count` for good, and those in
`finished` are done. -/
structure After (count : Nat) (finished : Nat → Prop) (s : Worker δ) : Prop where
  kept : Kept s
  event : s.shutdownEvent = true
  count_eq : s.consumer.tasks.length = count
  done : ∀ n, finished n → s.isDone n = true

/-- After the event no task is added, and what is done stays done. -/
theorem step_after {a : Act δ} {count : Nat} {finished : Nat → Prop}
    (hstep : Callbacks.Step config actions a s t) (h : After count finished s) :
    After count finished t := by
  have hkept := step_kept hstep h.kept
  cases hstep with
  | delivers object callback body => exact ⟨hkept, h.event, h.count_eq, h.done⟩
  | calls hd hplace =>
    have hcall : ∀ i d, s.call i d = s.put i { d with place := .rejecting } := by
      intro i d
      simp [Worker.call, h.event]
    rw [hcall] at hkept ⊢
    exact ⟨hkept, h.event, h.count_eq, h.done⟩
  | locks hd hplace hfree => exact absurd hplace (h.kept.passing _ (List.mem_of_getElem? hd))
  | requeues hd hplace hcallback => exact ⟨hkept, h.event, h.count_eq, h.done⟩
  | drops hd hplace => exact ⟨hkept, h.event, h.count_eq, h.done⟩
  | progresses hstep hsame =>
    exact ⟨hkept, h.event, hsame.trans h.count_eq,
      fun n hn => progress_done hstep hsame (h.done n hn)⟩
  | enters hmem hrunning => exact ⟨hkept, h.event, h.count_eq, h.done⟩
  | discards hdone => exact ⟨hkept, h.event, h.count_eq, h.done⟩
  | shutsDown => exact ⟨hkept, rfl, h.count_eq, h.done⟩
  | healthChanges healthy => exact ⟨hkept, h.event, h.count_eq, h.done⟩
  | waits w hset => exact ⟨hkept, h.event, h.count_eq, h.done⟩
  | polls w hw hmem hdone => exact ⟨hkept, h.event, h.count_eq, h.done⟩

/-- So it is in every continuation. -/
theorem run_after {count : Nat} {finished : Nat → Prop} (hrun : AnyRun config actions s t)
    (h : After count finished s) : After count finished t := by
  induction hrun with
  | refl => exact h
  | tail _ hstep ih =>
    obtain ⟨a, hstep, -⟩ := hstep
    exact step_after hstep ih

/-- Once the event is set no task is made, and once `wait_all_tasks_done` has returned every
task that was ever made is done, then and at any later time. -/
theorem shutdown_drains (config : WorkerConfig) (actions : Nat → ActionSpec) {s : Worker δ}
    (hrun : AnyRun config actions {} s) :
    (s.shutdownEvent = true → ∀ t, AnyRun config actions s t →
      t.consumer.tasks.length = s.consumer.tasks.length) ∧
    (∀ w, s.drains w = .returned → ∀ t, AnyRun config actions s t →
      ∀ task ∈ t.consumer.tasks, ∃ outcome, task.pc = .ended outcome) := by
  have hkept := run_kept hrun
  constructor
  · intro hset t hlater
    have hnow : After s.consumer.tasks.length (fun _ => False) s :=
      ⟨hkept, hset, rfl, fun _ hfalse => hfalse.elim⟩
    exact (run_after hlater hnow).count_eq
  · intro w hw t hlater task htask
    obtain ⟨hset, hall⟩ := hkept.drained w hw
    have hnow : After s.consumer.tasks.length (fun _ => True) s :=
      ⟨hkept, hset, rfl, fun n _ => hall n⟩
    have hafter := run_after hlater hnow
    obtain ⟨n, hn⟩ := List.getElem?_of_mem htask
    have hdone := hafter.done n trivial
    rw [Worker.isDone, hn] at hdone
    cases hpc : task.pc with
    | ended outcome => exact ⟨outcome, rfl⟩
    | created => simp [hpc, isEnded] at hdone
    | waiting slot => simp [hpc, isEnded] at hdone
    | running slot => simp [hpc, isEnded] at hdone

section Drained

/-- An unbounded worker with one handler, and no scheduled actions. -/
def plainConfig : WorkerConfig where
  defaultPrefetchCount := 0
  prefetchByChannelId _ := none
  sharedDefaultChannel := true

def orders : Callback := .messageHandler "orders" none

/-- One task of the handler. -/
def only (pc : Pc) : Consumer := { tasks := [{ callback := orders, pc := pc }] }

def stopping (c : Consumer) (drain : Drain) : Worker Unit where
  consumer := c
  deliveries := [⟨0, orders, [], .taken 0⟩]
  shutdownEvent := true
  tasks := [0]
  origins := [⟨0, orders, [], .arrived⟩]
  drains := fun _ => drain

theorem stopping_drain (c : Consumer) (drain : Drain) (candidates : List Nat) :
    (stopping c drain).drain () candidates = stopping c
      (if (candidates.filter fun n => !(stopping c drain).isDone n) = [] then .returned
        else .waiting (candidates.filter fun n => !(stopping c drain).isDone n)) := by
  unfold Worker.drain stopping
  congr 1

theorem stopped_reached :
    AnyRun plainConfig (fun _ => {}) ({} : Worker Unit)
      (stopping (only (.ended (.ok ()))) .returned) := by
  have hdelivered : AnyRun plainConfig (fun _ => {}) ({} : Worker Unit)
      { deliveries := [⟨0, orders, [], .arrived⟩] } :=
    .single ⟨.delivers, .delivers 0 orders [], trivial⟩
  have hcreated := hdelivered.tail ⟨.calls 0, .calls rfl rfl, trivial⟩
  have hbegins : ProcessingSlots.Step plainConfig (only .created) (only (.running none)) := by
    have hfirst : (only .created).tasks[0]? = some { callback := orders } := rfl
    exact .begins hfirst rfl
  have hrunning := hcreated.tail ⟨.progresses _, .progresses hbegins rfl, trivial⟩
  have hset : AnyRun plainConfig (fun _ => {}) ({} : Worker Unit)
      (stopping (only (.running none)) .idle) := hrunning.tail ⟨.shutsDown, .shutsDown, trivial⟩
  have hwaiting : AnyRun plainConfig (fun _ => {}) ({} : Worker Unit)
      (stopping (only (.running none)) (.waiting [0])) := by
    have hwaits := hset.tail ⟨.waits (), .waits () rfl, trivial⟩
    rwa [stopping_drain] at hwaits
  have hfinishes :
      ProcessingSlots.Step plainConfig (only (.running none)) (only (.ended (.ok ()))) := by
    have hfirst : (only (.running none)).tasks[0]? =
        some { callback := orders, pc := .running none } := rfl
    exact .finishes (.ok ()) hfirst rfl
  have hended : AnyRun plainConfig (fun _ => {}) ({} : Worker Unit)
      (stopping (only (.ended (.ok ()))) (.waiting [0])) :=
        hwaiting.tail ⟨.progresses _, .progresses hfinishes rfl, trivial⟩
  have hpolls := hended.tail ⟨.waits (), .polls () rfl (List.mem_singleton_self 0) rfl, trivial⟩
  rwa [stopping_drain] at hpolls

/-- The drain waits for the handler, and nothing is left when it returns. -/
theorem stopped_drained :
    AnyRun plainConfig (fun _ => {}) ({} : Worker Unit)
      (stopping (only (.ended (.ok ()))) .returned) ∧
      ∀ task ∈ (stopping (only (.ended (.ok ()))) .returned).consumer.tasks, ∃ outcome,
        task.pc = .ended outcome :=
  ⟨stopped_reached,
    (shutdown_drains plainConfig (fun _ => {}) stopped_reached).2
      () rfl _ Relation.ReflTransGen.refl⟩

end Drained

end GracefulShutdown

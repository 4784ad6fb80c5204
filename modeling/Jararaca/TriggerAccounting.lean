import Jararaca.GracefulShutdown
import Mathlib.Data.List.Nodup

/-!
# What becomes of a trigger

A trigger of a scheduled action is consumed with `no_ack`: it cannot go back to its queue,
so a callback or a task that meets the shutdown event or an unhealthy connection loses it.
So does an interceptor that refuses where the unit of work around the action is entered.
The overlap guard of the callback does not look at `allow_overlap`. In the runs without
these every trigger is executed once, or skipped while the task of an earlier one is not
done.
-/
namespace TriggerAccounting

open Messages ProcessingSlots Callbacks GracefulShutdown

variable {δ : Type} {config : WorkerConfig} {actions : Nat → ActionSpec} {s t : Worker δ}

/-- A trigger has one of its three fates, or is still on its way to one. -/
def Accounted (actions : Nat → ActionSpec) (s : Worker δ) (d : Incoming) : Prop :=
  match d.place with
  | .arrived | .rejecting | .waitingLock => True
  | .requeued => True
  | .dropped => False
  | .skipped _ => (actions d.object).allowOverlap = false
  | .taken n => s.executed.count n ≤ 1 ∧ (s.isDone n = true → s.executed.count n = 1)

/-- A step that skips a trigger does so while the task of an earlier trigger of the same
action is not done. -/
def SkipsInProgress (s t : Worker δ) : Prop :=
  ∀ (i : Nat) (d d' : Incoming) (n : Nat), s.deliveries[i]? = some d → d.place ≠ .skipped n →
    t.deliveries[i]? = some d' → d'.place = .skipped n →
      s.isDone n = false ∧ ∃ earlier, s.origins[n]? = some earlier ∧ earlier.object = d'.object

/-- The steps that neither lose a trigger nor skip one that may overlap: a callback and a
task of a scheduled action meet no shutdown event and no unhealthy connection, the action
can be called, its task does not end before the unit of work is entered, and the current
task of an action that may overlap is done when a trigger comes. -/
def Meets (actions : Nat → ActionSpec) (s : Worker δ) : Act δ → Prop
  | .calls i => ∀ d, s.deliveries[i]? = some d → isTrigger d = true →
      s.shutdownEvent = false ∧ s.connectionHealthy = true ∧
        ((actions d.object).allowOverlap = true → ∀ n, s.currentTask d.object = some n →
          s.isDone n = true)
  | .progresses c => ∀ n d, s.origins[n]? = some d → isTrigger d = true →
      (s.starts c n = true → s.runsWithContext actions n = true) ∧
        ∀ before after, s.consumer.tasks[n]? = some before → c.tasks[n]? = some after →
          isEnded after.pc = true →
            isEnded before.pc = true ∨ (before.isRunning = true ∧ n ∉ s.entering)
  | _ => True

/-- The task has entered its handler. -/
def begun : Pc → Bool
  | .running _ | .ended _ => true
  | .created | .waiting _ => false

/-- The invariant: the tasks and their deliveries correspond, the current task of a callback
is one of its action, and a task of an action that has begun has executed it or is about to,
and does not end before. -/
structure Counted (actions : Nat → ActionSpec) (s : Worker δ) : Prop where
  kept : Kept s
  lengths : s.origins.length = s.consumer.tasks.length
  current : ∀ o n, s.currentTask o = some n → ∃ d, s.origins[n]? = some d ∧ d.object = o
  places : ∀ d ∈ s.deliveries, isTrigger d = true →
    (d.place = .arrived ∨ ∃ n, (d.place = .skipped n ∧ (actions d.object).allowOverlap = false) ∨
      (d.place = .taken n ∧ ∃ d', s.origins[n]? = some d' ∧ isTrigger d' = true))
  executed : ∀ n d task, s.origins[n]? = some d → isTrigger d = true →
    s.consumer.tasks[n]? = some task →
      s.executed.count n + s.entering.count n = if begun task.pc then 1 else 0
  ended : ∀ n d task, s.origins[n]? = some d → isTrigger d = true →
    s.consumer.tasks[n]? = some task → isEnded task.pc = true → n ∉ s.entering
  bounded : ∀ n, n ∈ s.executed ∨ n ∈ s.entering → n < s.consumer.tasks.length

/-- A task that is still to be made has neither executed nor entered anything. -/
theorem executed_fresh (h : Counted actions s) :
    s.executed.count s.consumer.tasks.length + s.entering.count s.consumer.tasks.length = 0 := by
  have hexecuted : s.consumer.tasks.length ∉ s.executed :=
    fun hmem => Nat.lt_irrefl _ (h.bounded _ (.inl hmem))
  have hentering : s.consumer.tasks.length ∉ s.entering :=
    fun hmem => Nat.lt_irrefl _ (h.bounded _ (.inr hmem))
  rw [List.count_eq_zero.mpr hexecuted, List.count_eq_zero.mpr hentering]

theorem starts_iff {c : Consumer} {n : Nat} {before after : Task}
    (hb : s.consumer.tasks[n]? = some before) (ha : c.tasks[n]? = some after) :
    s.starts c n = (!before.isRunning && after.isRunning) := by
  simp [Worker.starts, hb, ha]

/-- How often a task comes to its unit of work in one step of the tasks. -/
theorem count_progress (c : Consumer) {n : Nat} (hn : n < c.tasks.length) :
    (s.progress actions c).entering.count n =
      s.entering.count n + if s.starts c n && s.runsWithContext actions n then 1 else 0 := by
  have hrange : (List.range c.tasks.length).count n = 1 :=
    List.count_eq_one_of_mem List.nodup_range (List.mem_range.mpr hn)
  have hfilter : ((List.range c.tasks.length).filter fun n =>
      s.starts c n && s.runsWithContext actions n).count n =
      if s.starts c n && s.runsWithContext actions n then 1 else 0 := by
    cases hp : s.starts c n && s.runsWithContext actions n with
    | true =>
      have hcount := List.count_filter (p := fun n => s.starts c n && s.runsWithContext actions n)
        (l := List.range c.tasks.length) hp
      rw [hcount, hrange, if_pos rfl]
    | false =>
      rw [if_neg (by simp), List.count_eq_zero]
      intro hmem
      rw [(List.mem_filter.mp hmem).2] at hp
      cases hp
  rw [Worker.progress, List.count_append, hfilter]

/-- Entering moves a task from those that enter to those that executed. -/
theorem count_enter {n : Nat} (hmem : n ∈ s.entering) (m : Nat) :
    (s.enter n).executed.count m + (s.enter n).entering.count m =
      s.executed.count m + s.entering.count m := by
  simp only [Worker.enter, List.count_append, List.count_singleton]
  by_cases hmn : n = m
  · subst hmn
    have hpos : 0 < s.entering.count n := List.count_pos_iff.mpr hmem
    rw [List.count_erase_self, beq_self_eq_true, if_pos rfl]
    omega
  · rw [List.count_erase_of_ne (Ne.symm hmn), beq_false_of_ne hmn]
    simp

/-- A task of an action that moves comes to its unit of work when it begins, and only then. -/
theorem moved_begun {before after : Task} (h : Moved before.pc after.pc)
    (hcancel : isEnded after.pc = true → isEnded before.pc = true ∨ before.isRunning = true) :
    (if begun after.pc then 1 else 0) =
      (if begun before.pc then 1 else 0) + if !before.isRunning && after.isRunning then 1
        else 0 := by
  obtain ⟨callback, p, settled⟩ := before
  obtain ⟨callback', q, settled'⟩ := after
  simp only [Task.isRunning] at h hcancel ⊢
  cases h with
  | stays => cases p <;> simp [begun]
  | waits => simp [begun]
  | runsFree => simp [begun]
  | runs => simp [begun]
  | ends => simp [begun]
  | cancelledEarly => simp [isEnded] at hcancel
  | cancelledWaiting => simp [isEnded] at hcancel

/-- Moving a delivery keeps the account, if no trigger is skipped that should not be. -/
theorem Counted.put (h : Counted actions s) {i : Nat} {d : Incoming} (hkept : Kept (s.put i d))
    (hplace : isTrigger d = true → ∃ n,
      d.place = .skipped n ∧ (actions d.object).allowOverlap = false) :
    Counted actions (s.put i d) := by
  refine ⟨hkept, h.lengths, h.current, ?_, h.executed, h.ended, h.bounded⟩
  intro d' hd' htrigger
  obtain hold | rfl := List.mem_or_eq_of_mem_set hd'
  · exact h.places d' hold htrigger
  · obtain ⟨n, hn⟩ := hplace htrigger
    exact .inr ⟨n, .inl hn⟩

theorem create_origins_old {i n : Nat} {d d' : Incoming} (hn : s.origins[n]? = some d') :
    (s.create i d).origins[n]? = some d' := by
  obtain ⟨hlt, -⟩ := List.getElem?_eq_some_iff.mp hn
  rw [Worker.create, List.getElem?_append_left hlt, hn]

theorem Counted.create_origins_new (h : Counted actions s) {i : Nat} {d : Incoming} :
    (s.create i d).origins[s.consumer.tasks.length]? = some d := by
  rw [Worker.create, ← h.lengths]
  exact List.getElem?_concat_length

/-- The current task of an object is one of its own. -/
theorem Counted.create_current (h : Counted actions s) {i n : Nat} {d : Incoming} {o : Nat}
    (hn : (s.create i d).currentTask o = some n) :
    ∃ d', (s.create i d).origins[n]? = some d' ∧ d'.object = o := by
  have hold : s.currentTask o = some n →
      ∃ d', (s.create i d).origins[n]? = some d' ∧ d'.object = o := by
    intro hcurrent
    obtain ⟨d', hd', ho⟩ := h.current o n hcurrent
    exact ⟨d', create_origins_old hd', ho⟩
  cases hcallback : d.callback with
  | messageHandler queue spec => exact hold (by simpa [Worker.create, hcallback] using hn)
  | scheduledAction queue spec =>
    simp only [Worker.create, hcallback] at hn
    by_cases ho : o = d.object
    · subst ho
      rw [Function.update_self] at hn
      cases hn
      exact ⟨d, h.create_origins_new, rfl⟩
    · rw [Function.update_of_ne ho] at hn
      exact hold hn

/-- A task of the new state is an old one or the one that was made. -/
theorem Counted.create_task (h : Counted actions s) {i n : Nat} {d d' : Incoming} {task : Task}
    (hd' : (s.create i d).origins[n]? = some d')
    (htask : (s.create i d).consumer.tasks[n]? = some task) :
    (s.origins[n]? = some d' ∧ s.consumer.tasks[n]? = some task) ∨
      (n = s.consumer.tasks.length ∧ task = { callback := d.callback }) := by
  have hlt : n < s.consumer.tasks.length + 1 := by
    simpa [Worker.create] using (List.getElem?_eq_some_iff.mp htask).1
  by_cases hold : n < s.consumer.tasks.length
  · have horigin : s.origins[n]? = some d' := by
      rwa [Worker.create, List.getElem?_append_left (by rw [h.lengths]; exact hold)] at hd'
    have hprevious : s.consumer.tasks[n]? = some task := by
      rwa [Worker.create, List.getElem?_append_left hold] at htask
    exact .inl ⟨horigin, hprevious⟩
  · obtain rfl : n = s.consumer.tasks.length := by omega
    have hlast : (s.create i d).consumer.tasks[s.consumer.tasks.length]? =
        some { callback := d.callback } := List.getElem?_concat_length
    rw [hlast] at htask
    cases htask
    exact .inr ⟨rfl, rfl⟩

/-- A task that is created accounts for its delivery. -/
theorem Counted.create (h : Counted actions s) {i : Nat} {d : Incoming}
    (hkept : Kept (s.create i d)) :
    Counted actions (s.create i d) where
  kept := hkept
  lengths := by simp [Worker.create, h.lengths]
  current _ _ hn := h.create_current hn
  places := by
    intro d' hd' htrigger
    obtain hold | rfl := List.mem_or_eq_of_mem_set hd'
    · obtain harrived | ⟨n, hskipped | ⟨htaken, d'', hd'', ht⟩⟩ := h.places d' hold htrigger
      · exact .inl harrived
      · exact .inr ⟨n, .inl hskipped⟩
      · exact .inr ⟨n, .inr ⟨htaken, d'', create_origins_old hd'', ht⟩⟩
    · exact .inr ⟨s.consumer.tasks.length, .inr ⟨rfl, d, h.create_origins_new, htrigger⟩⟩
  executed := by
    intro n d' task hd' htrigger htask
    obtain ⟨hold, hprevious⟩ | ⟨rfl, rfl⟩ := h.create_task hd' htask
    · exact h.executed n d' task hold htrigger hprevious
    · exact executed_fresh h
  ended := by
    intro n d' task hd' htrigger htask hended
    obtain ⟨hold, hprevious⟩ | ⟨rfl, rfl⟩ := h.create_task hd' htask
    · exact h.ended n d' task hold htrigger hprevious hended
    · cases hended
  bounded := by
    intro n hn
    have hlt := h.bounded n hn
    simp only [Worker.create, List.length_append, List.length_singleton]
    omega

/-- Going on keeps the account, if no task of the object is left behind. -/
theorem Counted.proceed (h : Counted actions s) {i : Nat} {d : Incoming}
    (hkept : Kept (s.proceed i d))
    (hoverlap : isTrigger d = true → (actions d.object).allowOverlap = true →
      ∀ n, s.currentTask d.object = some n → s.isDone n = true) :
    Counted actions (s.proceed i d) := by
  obtain hcreate | ⟨n, htrigger, hcurrent, hrunning, hskip⟩ := s.proceed_cases i d
  · rw [hcreate] at hkept ⊢
    exact h.create hkept
  · rw [hskip] at hkept ⊢
    apply h.put hkept
    intro _
    refine ⟨n, rfl, ?_⟩
    by_contra hallow
    rw [hoverlap htrigger (by simpa using hallow) n hcurrent] at hrunning
    cases hrunning

/-- Calling keeps the account, where the call meets the condition. -/
theorem Counted.call (h : Counted actions s) {i : Nat} {d : Incoming}
    (hd : s.deliveries[i]? = some d)
    (hmeets : Meets actions s (.calls i : Act δ)) : Counted actions (s.call i d) := by
  have hkept := h.kept.call i d
  obtain ⟨hstopped, hcall⟩ | ⟨-, -, hcall⟩ := s.call_cases i d h.kept.unlocked
  · rw [hcall] at hkept ⊢
    apply h.put hkept
    intro htrigger
    obtain ⟨hset, hhealthy, -⟩ := hmeets d hd htrigger
    obtain hevent | hdown := hstopped
    · rw [hset] at hevent
      cases hevent
    · rw [hhealthy] at hdown
      cases hdown
  · rw [hcall] at hkept ⊢
    exact h.proceed hkept fun htrigger => (hmeets d hd htrigger).2.2

/-- Who comes to the unit of work in a step of the tasks. -/
theorem mem_progress {c : Consumer} {n : Nat} : n ∈ (s.progress actions c).entering ↔
    n ∈ s.entering ∨ (n < c.tasks.length ∧ s.starts c n = true ∧
      s.runsWithContext actions n = true) := by
  simp [Worker.progress]

/-- Progress keeps the account, where it meets the condition. -/
theorem Counted.progress (h : Counted actions s) {c : Consumer}
    (hstep : ProcessingSlots.Step config s.consumer c)
    (hsame : c.tasks.length = s.consumer.tasks.length)
    (hmeets : Meets actions s (.progresses c : Act δ)) :
    Counted actions (s.progress actions c) := by
  have hbefore : ∀ {n : Nat} {after : Task}, c.tasks[n]? = some after →
      ∃ before, s.consumer.tasks[n]? = some before ∧ Moved before.pc after.pc := by
    intro n after hafter
    have hlt : n < s.consumer.tasks.length := by
      rw [← hsame]
      exact (List.getElem?_eq_some_iff.mp hafter).1
    obtain ⟨after', hafter', hmoved⟩ := step_moved hstep (List.getElem?_eq_getElem hlt)
    rw [hafter] at hafter'
    cases hafter'
    exact ⟨_, List.getElem?_eq_getElem hlt, hmoved⟩
  refine ⟨h.kept.progress hstep hsame, h.lengths.trans hsame.symm, h.current, h.places, ?_, ?_, ?_⟩
  · intro n d after hd htrigger hprogress
    have hafter : c.tasks[n]? = some after := hprogress
    obtain ⟨hstarts, hcancel⟩ := hmeets n d hd htrigger
    obtain ⟨before, hbefore, hmoved⟩ := hbefore hafter
    have hlt : n < c.tasks.length := (List.getElem?_eq_some_iff.mp hafter).1
    have hboth : (s.starts c n && s.runsWithContext actions n) = s.starts c n := by
      cases hs : s.starts c n with
      | false => rfl
      | true => rw [hstarts hs, Bool.and_true]
    have hran := fun hended => (hcancel before after hbefore hafter hended).imp_right And.left
    have hold := h.executed n d before hd htrigger hbefore
    rw [count_progress c hlt, hboth, starts_iff hbefore hafter, moved_begun hmoved hran, ← hold]
    exact (Nat.add_assoc _ _ _).symm
  · intro n d after hd htrigger hprogress hended hmem
    have hafter : c.tasks[n]? = some after := hprogress
    obtain ⟨before, hbefore, -⟩ := hbefore hafter
    obtain hold | ⟨-, hstarts, -⟩ := mem_progress.mp hmem
    · obtain hdone | ⟨-, hentered⟩ := (hmeets n d hd htrigger).2 before after hbefore hafter hended
      · exact h.ended n d before hd htrigger hbefore hdone hold
      · exact hentered hold
    · -- a task that begins has not ended
      rw [starts_iff hbefore hafter] at hstarts
      unfold isEnded at hended
      unfold Task.isRunning at hstarts
      cases hpc : after.pc <;> simp [hpc] at hended hstarts
  · intro n hn
    obtain hold | hnew := hn.imp_right mem_progress.mp
    · exact (h.bounded n (.inl hold)).trans_eq hsame.symm
    · obtain hold | ⟨hlt, -⟩ := hnew
      · exact (h.bounded n (.inr hold)).trans_eq hsame.symm
      · exact hlt

/-- Entering the body keeps the account. -/
theorem Counted.enter (h : Counted actions s) {n : Nat} (hkept : Kept (s.enter n))
    (hmem : n ∈ s.entering) :
    Counted actions (s.enter n) := by
  refine ⟨hkept, h.lengths, h.current, h.places, ?_, ?_, ?_⟩
  · intro m d task hd htrigger htask
    rw [count_enter hmem]
    exact h.executed m d task hd htrigger htask
  · intro m d task hd htrigger htask hended hm
    exact h.ended m d task hd htrigger htask hended (List.mem_of_mem_erase hm)
  · intro m hm
    obtain hexecuted | hentering := hm
    · obtain hold | hnew := List.mem_append.mp hexecuted
      · exact h.bounded m (.inl hold)
      · rw [List.mem_singleton.mp hnew]
        exact h.bounded n (.inr hmem)
    · exact h.bounded m (.inr (List.mem_of_mem_erase hentering))

/-- What leaves deliveries, tasks and executions alone keeps the account. -/
theorem Counted.still (h : Counted actions s) {s' : Worker δ} (hkept : Kept s')
    (hconsumer : s'.consumer = s.consumer) (hdeliveries : s'.deliveries = s.deliveries)
    (horigins : s'.origins = s.origins) (hcurrent : s'.currentTask = s.currentTask)
    (hentering : s'.entering = s.entering) (hexecuted : s'.executed = s.executed) :
    Counted actions s' := by
  obtain ⟨-, hl, hc, hp, he, hd, hb⟩ := h
  constructor
  · exact hkept
  · rw [hconsumer, horigins, hl]
  · rw [hcurrent, horigins]
    exact hc
  · rw [hdeliveries, horigins]
    exact hp
  · rw [hconsumer, horigins, hentering, hexecuted]
    exact he
  · rw [hconsumer, horigins, hentering]
    exact hd
  · rw [hconsumer, hentering, hexecuted]
    exact hb

variable [DecidableEq δ]

/-- One step that meets the condition keeps the invariant. -/
theorem step_counted {a : Act δ} (hstep : Callbacks.Step config actions a s t)
    (hmeets : Meets actions s a) (h : Counted actions s) : Counted actions t := by
  have hkept := step_kept hstep h.kept
  cases hstep with
  | delivers object callback body =>
    refine ⟨hkept, h.lengths, h.current, ?_, h.executed, h.ended, h.bounded⟩
    intro d hd htrigger
    obtain hold | hnew := List.mem_append.mp hd
    · exact h.places d hold htrigger
    · rw [List.mem_singleton.mp hnew]
      exact .inl rfl
  | calls hd hplace => exact h.call hd hmeets
  | locks hd hplace hfree => exact absurd hplace (h.kept.passing _ (List.mem_of_getElem? hd))
  | requeues hd hplace hcallback =>
    apply h.put hkept
    intro htrigger
    simp [isTrigger, hcallback] at htrigger
  | drops hd hplace =>
    apply h.put hkept
    intro htrigger
    -- no trigger waits for the answer to a reject
    obtain harrived | ⟨n, ⟨hskipped, -⟩ | ⟨htaken, -⟩⟩ :=
      h.places _ (List.mem_of_getElem? hd) htrigger
    · rw [hplace] at harrived
      cases harrived
    · rw [hplace] at hskipped
      cases hskipped
    · rw [hplace] at htaken
      cases htaken
  | progresses hstep hsame => exact h.progress hstep hsame hmeets
  | enters hmem hrunning => exact h.enter hkept hmem
  | discards hdone => exact h.still hkept rfl rfl rfl rfl rfl rfl
  | shutsDown => exact h.still hkept rfl rfl rfl rfl rfl rfl
  | healthChanges healthy => exact h.still hkept rfl rfl rfl rfl rfl rfl
  | waits w hset => exact h.still hkept rfl rfl rfl rfl rfl rfl
  | polls w hw hmem hdone => exact h.still hkept rfl rfl rfl rfl rfl rfl

omit [DecidableEq δ] in
theorem start_counted : Counted actions ({} : Worker δ) := by
  refine ⟨start_kept, rfl, ?_, ?_, ?_, ?_, ?_⟩
  · intro o n hn
    cases hn
  · intro d hd
    cases hd
  · intro n d task hd
    simp at hd
  · intro n d task hd
    simp at hd
  · simp

/-- The account holds in every run that meets the condition. -/
theorem run_counted (hrun : Runs config actions (Meets actions) {} s) : Counted actions s := by
  induction hrun with
  | refl => exact start_counted
  | tail _ hstep ih =>
    obtain ⟨a, hstep, hmeets⟩ := hstep
    exact step_counted hstep hmeets ih

omit [DecidableEq δ] in
/-- Every trigger is executed, returned, skipped or under way. -/
theorem Counted.accounted (h : Counted actions s) {d : Incoming} (hd : d ∈ s.deliveries)
    (htrigger : isTrigger d = true) : Accounted actions s d := by
  obtain harrived | ⟨n, ⟨hskipped, hallow⟩ | ⟨htaken, d', hd', ht⟩⟩ := h.places d hd htrigger
  · simp [Accounted, harrived]
  · simp [Accounted, hskipped, hallow]
  · have hlt : n < s.consumer.tasks.length := by
      rw [← h.lengths]
      exact (List.getElem?_eq_some_iff.mp hd').1
    have htask := List.getElem?_eq_getElem hlt
    have hcount := h.executed n d' _ hd' ht htask
    simp only [Accounted, htaken]
    constructor
    · split at hcount <;> omega
    · intro hdone
      have hended : isEnded (s.consumer.tasks[n]).pc = true := by
        simpa [Worker.isDone, htask] using hdone
      have hbegun : begun (s.consumer.tasks[n]).pc = true := by
        unfold isEnded at hended
        split at hended
        · rename_i hpc
          rw [hpc]
          rfl
        · cases hended
      have hentered := h.ended n d' _ hd' ht htask hended
      rwa [if_pos hbegun, List.count_eq_zero.mpr hentered] at hcount

section Skips

variable {i : Nat} {d d' : Incoming} {n : Nat}

omit [DecidableEq δ] in
/-- A step that leaves the trigger at its place, or takes it elsewhere, does not skip it. -/
theorem not_skipped_of_set (hd : s.deliveries[i]? = some d)
    (hbefore : d.place ≠ .skipped n) {j : Nat}
    {new : Incoming} (hnew : new.place ≠ .skipped n)
    (hset : (s.deliveries.set j new)[i]? = some d') :
    d'.place ≠ .skipped n := by
  by_cases hji : j = i
  · subst hji
    obtain ⟨hlt, -⟩ := List.getElem?_eq_some_iff.mp hd
    rw [List.getElem?_set_self hlt] at hset
    cases hset
    exact hnew
  · rw [List.getElem?_set_ne hji, hd] at hset
    cases hset
    exact hbefore

omit [DecidableEq δ] in
/-- What the callback behind its guards skips, it skips for the current task. -/
theorem proceed_skips (hcurrent : ∀ o n, s.currentTask o = some n → ∃ d,
    s.origins[n]? = some d ∧ d.object = o)
    (hd : s.deliveries[i]? = some d) (hbefore : d.place ≠ .skipped n) {j : Nat} {e : Incoming}
    (hd' : (s.proceed j e).deliveries[i]? = some d') (hafter : d'.place = .skipped n) :
    s.isDone n = false ∧ ∃ earlier, s.origins[n]? = some earlier ∧ earlier.object = d'.object := by
  obtain hcreate | ⟨m, -, hm, hrunning, hskip⟩ := s.proceed_cases j e
  · rw [hcreate] at hd'
    exact absurd hafter (not_skipped_of_set hd hbefore (by simp) hd')
  · rw [hskip] at hd'
    by_cases hji : j = i
    · subst hji
      obtain ⟨hlt, -⟩ := List.getElem?_eq_some_iff.mp hd
      rw [Worker.put, List.getElem?_set_self hlt] at hd'
      cases hd'
      cases hafter
      exact ⟨hrunning, hcurrent e.object _ hm⟩
    · rw [Worker.put, List.getElem?_set_ne hji, hd] at hd'
      cases hd'
      exact absurd hafter hbefore

end Skips

/-- A trigger is skipped only while the task of an earlier one is not done. -/
theorem step_skips {a : Act δ} (hstep : Callbacks.Step config actions a s t)
    (hcurrent : ∀ o n, s.currentTask o = some n → ∃ d, s.origins[n]? = some d ∧ d.object = o) :
    SkipsInProgress s t := by
  intro i d d' n hd hbefore hd' hafter
  have hsame : t.deliveries = s.deliveries → False := by
    intro heq
    rw [heq, hd] at hd'
    cases hd'
    exact hbefore hafter
  cases hstep with
  | delivers object callback body =>
    obtain ⟨hlt, -⟩ := List.getElem?_eq_some_iff.mp hd
    rw [List.getElem?_append_left hlt, hd] at hd'
    cases hd'
    exact absurd hafter hbefore
  | calls he hplace =>
    unfold Worker.call at hd'
    split at hd'
    · exact absurd hafter (not_skipped_of_set hd hbefore (by simp) hd')
    · split at hd'
      · exact absurd hafter (not_skipped_of_set hd hbefore (by simp) hd')
      · exact proceed_skips hcurrent hd hbefore hd' hafter
  | locks he hplace hfree => exact proceed_skips hcurrent hd hbefore hd' hafter
  | requeues he hplace hcallback =>
    exact absurd hafter (not_skipped_of_set hd hbefore (by simp) hd')
  | drops he hplace => exact absurd hafter (not_skipped_of_set hd hbefore (by simp) hd')
  | progresses hprogress heq => exact (hsame rfl).elim
  | enters hmem hrunning => exact (hsame rfl).elim
  | discards hdone => exact (hsame rfl).elim
  | shutsDown => exact (hsame rfl).elim
  | healthChanges healthy => exact (hsame rfl).elim
  | waits w hset => exact (hsame rfl).elim
  | polls w hw hmem hdone => exact (hsame rfl).elim

/-- In the runs that meet the condition every trigger has one of its fates, and it is skipped
only while the task of an earlier one is not done. -/
theorem triggers_accounted (config : WorkerConfig) (actions : Nat → ActionSpec) {s : Worker δ}
    (hrun : Runs config actions (Meets actions) {} s) :
    (∀ d ∈ s.deliveries, isTrigger d = true → Accounted actions s d) ∧
      ∀ a t, Callbacks.Step config actions a s t → SkipsInProgress s t := by
  have hcounted := run_counted hrun
  constructor
  · intro d hd htrigger
    exact hcounted.accounted hd htrigger
  · intro a t hstep
    exact step_skips hstep hcounted.current

section Report

def report : Callback := .scheduledAction "report" none

/-- The worker around one task of the action, with what it enters and has executed. -/
def reporting (pc : Pc) (entering executed : List Nat) : Worker Unit where
  consumer := { tasks := [{ callback := report, pc := pc }] }
  deliveries := [⟨0, report, [], .taken 0⟩]
  tasks := [0]
  currentTask := Function.update (fun _ => none) 0 (some 0)
  origins := [⟨0, report, [], .arrived⟩]
  entering := entering
  executed := executed

theorem report_moves {p q : Pc}
    (h : p = .created ∧ q = .running none ∨ p = .running none ∧ q = .ended (.ok ())) :
    ProcessingSlots.Step plainConfig { tasks := [{ callback := report, pc := p }] }
      { tasks := [{ callback := report, pc := q }] } := by
  have hfirst : (Consumer.tasks { tasks := [{ callback := report, pc := p }] })[0]? =
      some { callback := report, pc := p } := rfl
  obtain ⟨rfl, rfl⟩ | ⟨rfl, rfl⟩ := h
  · exact .begins hfirst rfl
  · exact .finishes (.ok ()) hfirst rfl

/-- A run up to the unit of work around the action, whatever its declaration says about overlaps. -/
theorem entering_reached (allowOverlap : Bool) :
    Runs plainConfig (fun _ => { allowOverlap := allowOverlap })
      (Meets fun _ => { allowOverlap := allowOverlap }) {} (reporting (.running none) [0] []) := by
  have hdelivered : Runs plainConfig (fun _ => { allowOverlap := allowOverlap })
      (Meets fun _ => { allowOverlap := allowOverlap }) ({} : Worker Unit)
      { deliveries := [⟨0, report, [], .arrived⟩] } :=
    .single ⟨.delivers, .delivers 0 report [], trivial⟩
  have hcreated : Runs plainConfig (fun _ => { allowOverlap := allowOverlap })
      (Meets fun _ => { allowOverlap := allowOverlap }) ({} : Worker Unit)
        (reporting .created [] []) := by
    have hfirst : (Worker.deliveries ({ deliveries :=
      [⟨0, report, [], .arrived⟩] } : Worker Unit))[0]? =
        some ⟨0, report, [], .arrived⟩ := rfl
    refine hdelivered.tail ⟨.calls 0, .calls hfirst rfl, ?_⟩
    intro d hd htrigger
    exact ⟨rfl, rfl, fun _ n hn => nomatch hn⟩
  refine hcreated.tail ⟨.progresses _, .progresses (report_moves (.inl ⟨rfl, rfl⟩)) rfl, ?_⟩
  intro n d hd htrigger
  cases n with
  | zero =>
    refine ⟨fun _ => rfl, fun before after hbefore hafter hended => ?_⟩
    cases hafter
    cases hended
  | succ n => simp [reporting] at hd

theorem executing_reached (allowOverlap : Bool) :
    Runs plainConfig (fun _ => { allowOverlap := allowOverlap })
      (Meets fun _ => { allowOverlap := allowOverlap }) {} (reporting (.running none) [] [0]) :=
  (entering_reached allowOverlap).tail ⟨.enters 0, .enters (List.mem_singleton_self 0) rfl, trivial⟩

theorem executed_reached :
    Runs plainConfig (fun _ => {}) (Meets fun _ => {}) {} (reporting (.ended (.ok ())) [] [0]) := by
  refine (executing_reached false).tail
    ⟨.progresses _, .progresses (report_moves (.inr ⟨rfl, rfl⟩)) rfl, ?_⟩
  intro n d hd htrigger
  cases n with
  | zero =>
    constructor
    · intro hstarts
      cases hstarts
    · intro before after hbefore hafter hended
      cases hbefore
      exact .inr ⟨rfl, List.not_mem_nil⟩
  | succ n => simp [reporting] at hd

/-- One trigger, executed once. -/
theorem report_accounted :
    Runs plainConfig (fun _ => {}) (Meets fun _ => {}) {} (reporting (.ended (.ok ())) [] [0]) ∧
      ∀ d ∈ (reporting (.ended (.ok ())) [] [0]).deliveries, isTrigger d = true →
        Accounted (fun _ => {}) (reporting (.ended (.ok ())) [] [0]) d :=
  ⟨executed_reached, (triggers_accounted plainConfig (fun _ => {}) executed_reached).1⟩

/-- One more trigger of the action. -/
def delivering (s : Worker Unit) : Worker Unit :=
  { s with deliveries := s.deliveries ++ [⟨0, report, [], .arrived⟩] }

/-- An action that may overlap is executed when its next trigger comes. -/
def overlapped : Worker Unit :=
  { reporting (.running none) [] [0] with
    deliveries := [⟨0, report, [], .taken 0⟩, ⟨0, report, [], .skipped 0⟩] }

/-- The event was set before the trigger came. -/
def lost : Worker Unit where
  deliveries := [⟨0, report, [], .dropped⟩]
  shutdownEvent := true

/-- An interceptor refused where the unit of work was entered. -/
def refused : Worker Unit := reporting (.ended (.ok ())) [0] []

/-- A trigger that is skipped although overlap is allowed, one that is cancelled before it runs,
and one that an interceptor refuses. -/
theorem trigger_skipped_or_lost :
    (AnyRun plainConfig (fun _ => { allowOverlap := true }) {} overlapped ∧
      ¬∀ d ∈ overlapped.deliveries, isTrigger d = true →
        Accounted (fun _ => { allowOverlap := true }) overlapped d) ∧
    (AnyRun plainConfig (fun _ => {}) {} lost ∧
      ¬∀ d ∈ lost.deliveries, isTrigger d = true → Accounted (fun _ => {}) lost d) ∧
    (AnyRun plainConfig (fun _ => {}) {} refused ∧
      ¬∀ d ∈ refused.deliveries, isTrigger d = true → Accounted (fun _ => {}) refused d) := by
  refine ⟨⟨?_, ?_⟩, ⟨?_, ?_⟩, ?_, ?_⟩
  · have hdelivered : AnyRun plainConfig (fun _ => { allowOverlap := true }) {}
        (delivering (reporting (.running none) [] [0])) :=
      Relation.ReflTransGen.tail (Runs.any (executing_reached true))
        ⟨.delivers, .delivers 0 report [], trivial⟩
    have hsecond : (delivering (reporting (.running none) [] [0])).deliveries[1]? =
        some ⟨0, report, [], .arrived⟩ := rfl
    exact hdelivered.tail ⟨.calls 1, .calls hsecond rfl, trivial⟩
  · intro h
    have hskipped := h ⟨0, report, [], .skipped 0⟩ (by simp [overlapped]) rfl
    cases hskipped
  · have hset : AnyRun plainConfig (fun _ => {}) ({} : Worker Unit) { shutdownEvent := true } :=
      .single ⟨.shutsDown, .shutsDown, trivial⟩
    have hdelivered : AnyRun plainConfig (fun _ => {}) {} (delivering { shutdownEvent := true }) :=
      hset.tail ⟨.delivers, .delivers 0 report [], trivial⟩
    have hfirst : (delivering { shutdownEvent := true }).deliveries[0]? =
        some ⟨0, report, [], .arrived⟩ := rfl
    have hcalled := hdelivered.tail ⟨.calls 0, .calls hfirst rfl, trivial⟩
    have hrejecting :
        ((delivering { shutdownEvent := true }).call 0 ⟨0, report, [], .arrived⟩).deliveries[0]? =
        some ⟨0, report, [], .rejecting⟩ := rfl
    exact hcalled.tail ⟨.answers 0, .drops hrejecting rfl, trivial⟩
  · intro h
    exact h ⟨0, report, [], .dropped⟩ (by simp [lost]) rfl
  · have hentering : AnyRun plainConfig (fun _ => {}) {} (reporting (.running none) [0] []) :=
      Runs.any (entering_reached false)
    exact hentering.tail ⟨.progresses _, .progresses (report_moves (.inr ⟨rfl, rfl⟩)) rfl, trivial⟩
  · intro h
    have honce := (h ⟨0, report, [], .taken 0⟩ (by simp [refused, reporting]) rfl).2 rfl
    cases honce

end Report

end TriggerAccounting

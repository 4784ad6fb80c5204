import Mathlib.Logic.Relation

/-!
# Guarded queries

`QueryGuard.run` of client_cancellation.py: the wrapped task, the watcher and the caller, who
may be cancelled at any time. Everything between two awaits is one step. A cancelled caller that
waits for a future cancels the future and goes on when that is done; if the future is done
already, the caller gets its CancelledError at its next step.
-/
namespace QueryGuards

inductive TaskOutcome (V E : Type) where
  | returned (v : V)
  | raised (e : E)
  | cancelled
  deriving DecidableEq

/-- How `run` ends; `exception` and `timeoutException` are what its two factories make. -/
inductive Outcome (V E : Type) where
  | returned (v : V)
  | raised (e : E)
  | cancelled
  | exception
  | timeoutException
  deriving DecidableEq

def TaskOutcome.result {V E : Type} : TaskOutcome V E → Outcome V E
  | .returned v => .returned v
  | .raised e => .raised e
  | .cancelled => .cancelled

/-- What leaves the `finally` after `await task`: what the task raised, or else the exception
that was about to be raised. -/
def TaskOutcome.replaces {V E : Type} (own : TaskOutcome V E) (pending : Outcome V E) :
    Outcome V E :=
  match own with
  | .raised e => .raised e
  | .returned _ | .cancelled => pending

/-- Where `_watch_disconnect` stands: at `is_disconnected`, at `sleep`, done because the client
is gone, or because `is_disconnected` raised. -/
inductive WatcherPc where
  | polling
  | sleeping
  | saw
  | failed
  deriving DecidableEq

def WatcherPc.isDone : WatcherPc → Bool
  | .saw | .failed => true
  | .polling | .sleeping => false

/-- The future that `asyncio.wait` awaits. -/
inductive Waiter where
  | pending
  | set
  | cancelled
  deriving DecidableEq

/-- Where `run` stands: in `asyncio.wait`, at `await task` in its `finally` with what it is
about to raise, or exited. -/
inductive Pc (V E : Type) where
  | waiting (waiter : Waiter)
  | cleaning (pending : Outcome V E)
  | exited (outcome : Outcome V E)

/-- What there was when the wait ended. -/
structure WaitEnd (V E : Type) where
  task : Option (TaskOutcome V E)
  watcher : WatcherPc
  timedOut : Bool

/-- One run. `requests` counts the calls of `task.cancel`, `external` tells whether the caller
was cancelled, and `mustCancel` that its CancelledError is still to come. -/
structure Guard (V E : Type) where
  timeout : Bool
  pc : Pc V E
  task : Option (TaskOutcome V E) := none
  watcher : WatcherPc := .polling
  watcherCancelled : Bool := false
  gone : Bool := false
  timedOut : Bool := false
  requests : Nat := 0
  mustCancel : Bool := false
  external : Bool
  ended : Option (WaitEnd V E) := none

namespace Guard

variable {V E : Type}

/-- `run` up to its first await, with a timeout or without, for a caller that was cancelled
before or was not. -/
def start (timeout external : Bool) : Guard V E where
  timeout := timeout
  pc := .waiting (if external then .cancelled else .pending)
  external := external

/-- The `finally`. -/
def leave (s : Guard V E) (pending : Outcome V E) : Guard V E :=
  match s.task with
  | none => { s with watcherCancelled := true, requests := s.requests + 1, pc := .cleaning pending }
  | some _ => { s with watcherCancelled := true, pc := .exited pending }

/-- After the wait. -/
def resume (s : Guard V E) : Guard V E :=
  let s := { s with ended := some ⟨s.task, s.watcher, s.timedOut⟩ }
  match s.task with
  | some own => s.leave own.result
  | none => if s.watcher.isDone then s.leave .exception else s.leave .timeoutException

/-- After `await task`, under `suppress(asyncio.CancelledError)`. -/
def awake (s : Guard V E) (own : TaskOutcome V E) (pending : Outcome V E) : Guard V E :=
  if s.mustCancel then { s with mustCancel := false, pc := .exited pending }
  else { s with pc := .exited (own.replaces pending) }

def cancel (s : Guard V E) : Guard V E :=
  match s.pc with
  | .waiting .pending => { s with external := true, pc := .waiting .cancelled }
  | .waiting .set | .waiting .cancelled => { s with external := true, mustCancel := true }
  | .cleaning _ =>
    match s.task with
    | none => { s with external := true, requests := s.requests + 1 }
    | some _ => { s with external := true, mustCancel := true }
  | .exited _ => s

end Guard

variable {V E : Type}

inductive Step : Guard V E → Guard V E → Prop
  | disconnects (s) : Step s { s with gone := true }
  | polls {s} (hwatcher : s.watcher = .polling) (hruns : s.watcherCancelled = false) :
      Step s { s with watcher := if s.gone then .saw else .sleeping }
  | wakes {s} (hwatcher : s.watcher = .sleeping) (hruns : s.watcherCancelled = false) :
      Step s { s with watcher := .polling }
  | fails {s} (hwatcher : s.watcher = .polling) (hruns : s.watcherCancelled = false) :
      Step s { s with watcher := .failed }
  -- by itself, or at last after any number of cancellations
  | finishes {s} (own : TaskOutcome V E) (htask : s.task = none) :
      Step s { s with task := some own }
  -- a done callback of `asyncio.wait`
  | completes {s} (hpc : s.pc = .waiting .pending) (hdone : s.task.isSome ∨ s.watcher.isDone) :
      Step s { s with pc := .waiting .set }
  -- its timeout handle
  | expires {s} (htimeout : s.timeout = true) (hpc : s.pc = .waiting .pending) :
      Step s { s with timedOut := true, pc := .waiting .set }
  | resumes {s} (hpc : s.pc = .waiting .set) (hmust : s.mustCancel = false) : Step s s.resume
  | interrupted {s}
      (hpc : s.pc = .waiting .cancelled ∨ s.pc = .waiting .set ∧ s.mustCancel = true) :
      Step s ({ s with mustCancel := false }.leave .cancelled)
  | awakes {s own pending} (hpc : s.pc = .cleaning pending) (htask : s.task = some own) :
      Step s (s.awake own pending)
  | cancels (s) : Step s s.cancel

def Reachable (timeout external : Bool) : Guard V E → Prop :=
  Relation.ReflTransGen Step (.start timeout external)

/-- What `run` is about to raise if the task had not finished when the wait ended. -/
def WaitEnd.pending (w : WaitEnd V E) : Outcome V E :=
  if w.watcher.isDone then .exception else .timeoutException

/-- The watcher or the timeout had ended the wait. -/
def WaitEnd.caused (w : WaitEnd V E) (timeout : Bool) : Prop :=
  w.watcher.isDone = true ∨ timeout = true ∧ w.timedOut = true

/-- How `run` must end, from what there was when the wait ended and how the task ended: the
task's own way if it had finished; else with what its cleanup raised, if that raised; else with
the exception of the disconnect or, when the timeout has hit, with that of the timeout. -/
def Lawful (timeout : Bool) (w : WaitEnd V E) (own : TaskOutcome V E)
    (outcome : Outcome V E) : Prop :=
  match w.task with
  | some early => early = own ∧ outcome = own.result
  | none => w.caused timeout ∧ outcome = own.replaces w.pending

/-- What holds of a caller that nobody has cancelled. -/
def Undisturbed (s : Guard V E) : Prop :=
  match s.pc with
  | .waiting .pending => True
  | .waiting .set => s.task.isSome ∨ s.watcher.isDone ∨ s.timeout = true ∧ s.timedOut = true
  | .waiting .cancelled => False
  | .cleaning pending =>
    ∃ w, s.ended = some w ∧ w.task = none ∧ pending = w.pending ∧ w.caused s.timeout
  | .exited outcome =>
    ∃ w own, s.ended = some w ∧ s.task = some own ∧ Lawful s.timeout w own outcome

/-- `run` leaves its `try` only with the watcher cancelled and the task cancelled or done, and
exits only with the task done. -/
structure Sound (s : Guard V E) : Prop where
  watcher : (∀ waiter, s.pc ≠ .waiting waiter) → s.watcherCancelled = true
  cleaning : ∀ pending, s.pc = .cleaning pending → 0 < s.requests
  exited : ∀ outcome, s.pc = .exited outcome → s.task.isSome
  undisturbed : s.external = false → s.mustCancel = false ∧ Undisturbed s

section Runs

variable {s t : Guard V E} {timeout external : Bool}

theorem leave_of_none {pending : Outcome V E} (h : s.task = none) : s.leave pending =
    { s with watcherCancelled := true, requests := s.requests + 1, pc := .cleaning pending } := by
  simp [Guard.leave, h]

theorem leave_of_some {pending : Outcome V E} {own : TaskOutcome V E} (h : s.task = some own) :
    s.leave pending = { s with watcherCancelled := true, pc := .exited pending } := by
  simp [Guard.leave, h]

/-- What `finally` makes of a state whose wait has ended. -/
theorem sound_leave {pending : Outcome V E} (hmust : s.external = false → s.mustCancel = false)
    (hcleaning : s.external = false → s.task = none →
      ∃ w, s.ended = some w ∧ w.task = none ∧ pending = w.pending ∧ w.caused s.timeout)
    (hexited : s.external = false → ∀ own, s.task = some own →
      ∃ w, s.ended = some w ∧ Lawful s.timeout w own pending) : Sound (s.leave pending) := by
  cases htask : s.task with
  | none =>
    rw [leave_of_none htask]
    constructor
    · exact fun _ => rfl
    · exact fun _ _ => Nat.succ_pos _
    · intro outcome hpc
      cases hpc
    · intro hexternal
      exact ⟨hmust hexternal, hcleaning hexternal htask⟩
  | some own =>
    rw [leave_of_some htask]
    constructor
    · exact fun _ => rfl
    · intro pending' hpc
      cases hpc
    · intro outcome _
      simp [htask]
    · intro hexternal
      obtain ⟨w, hended, hlawful⟩ := hexited hexternal own htask
      exact ⟨hmust hexternal, w, own, hended, htask, hlawful⟩

/-- What the wait's end alone decides. -/
def WaitEnd.outcome (w : WaitEnd V E) : Outcome V E :=
  match w.task with
  | some own => own.result
  | none => w.pending

theorem resume_eq (s : Guard V E) : s.resume =
    ({ s with ended := some ⟨s.task, s.watcher, s.timedOut⟩ } : Guard V E).leave
      (WaitEnd.outcome ⟨s.task, s.watcher, s.timedOut⟩) := by
  unfold Guard.resume WaitEnd.outcome WaitEnd.pending
  cases s.task with
  | some own => rfl
  | none => cases s.watcher <;> rfl

/-- Resuming keeps the guard sound: the watcher was cancelled on the way out of the `try`. -/
theorem sound_resume (hs : Sound s) (hpc : s.pc = .waiting .set) : Sound s.resume := by
  have hset : s.external = false → s.mustCancel = false ∧
      (s.task.isSome ∨ s.watcher.isDone ∨ s.timeout = true ∧ s.timedOut = true) := by
    intro hexternal
    obtain ⟨hmust, hundisturbed⟩ := hs.undisturbed hexternal
    rw [Undisturbed, hpc] at hundisturbed
    exact ⟨hmust, hundisturbed⟩
  rw [resume_eq]
  apply sound_leave
  · exact fun hexternal => (hset hexternal).1
  · intro hexternal htask
    have hnone : s.task = none := htask
    have hcause := (hset hexternal).2
    rw [hnone] at hcause
    refine ⟨_, rfl, hnone, ?_, hcause.resolve_left (by simp)⟩
    simp only [WaitEnd.outcome, hnone]
  · intro _ own htask
    have hsome : s.task = some own := htask
    refine ⟨_, rfl, ?_⟩
    simp only [Lawful, WaitEnd.outcome, hsome, and_self]

/-- So does waking when the task has ended. -/
theorem sound_awake {own : TaskOutcome V E} {pending : Outcome V E} (hs : Sound s)
    (hpc : s.pc = .cleaning pending)
    (htask : s.task = some own) : Sound (s.awake own pending) := by
  have hwatcher := hs.watcher (by simp [hpc])
  unfold Guard.awake
  by_cases hmust : s.mustCancel = true
  · rw [if_pos hmust]
    constructor
    · exact fun _ => hwatcher
    · intro pending' hpc'
      cases hpc'
    · intro outcome _
      simp [htask]
    · intro hexternal
      rw [(hs.undisturbed hexternal).1] at hmust
      cases hmust
  · rw [if_neg hmust]
    constructor
    · exact fun _ => hwatcher
    · intro pending' hpc'
      cases hpc'
    · intro outcome _
      simp [htask]
    · intro hexternal
      obtain ⟨hfalse, hundisturbed⟩ := hs.undisturbed hexternal
      rw [Undisturbed, hpc] at hundisturbed
      obtain ⟨w, hended, hnone, rfl, hcaused⟩ := hundisturbed
      refine ⟨hfalse, w, own, hended, htask, ?_⟩
      simp only [Lawful, hnone]
      exact ⟨hcaused, trivial⟩

/-- A step that leaves `run` where it is. -/
theorem sound_congr (hs : Sound s) (hpc : t.pc = s.pc) (htimeout : t.timeout = s.timeout)
    (htask : ∀ own, s.task = some own → t.task = some own)
    (hwatcher : s.watcher.isDone = true → t.watcher.isDone = true)
    (hcancelled : t.watcherCancelled = s.watcherCancelled) (htimedOut : t.timedOut = s.timedOut)
    (hrequests : t.requests = s.requests) (hmust : t.mustCancel = s.mustCancel)
    (hexternal : t.external = s.external)
    (hended : t.ended = s.ended) : Sound t := by
  have hsome : s.task.isSome = true → t.task.isSome = true := by
    intro h
    obtain ⟨own, hown⟩ := Option.isSome_iff_exists.mp h
    rw [htask own hown]
    rfl
  constructor
  · intro h
    rw [hcancelled]
    exact hs.watcher (hpc ▸ h)
  · intro pending h
    rw [hrequests]
    exact hs.cleaning pending (hpc ▸ h)
  · intro outcome h
    exact hsome (hs.exited outcome (hpc ▸ h))
  · intro h
    obtain ⟨hmust', hundisturbed⟩ := hs.undisturbed (hexternal ▸ h)
    refine ⟨hmust.trans hmust', ?_⟩
    unfold Undisturbed at hundisturbed ⊢
    rw [hpc]
    split at hundisturbed
    · trivial
    · rw [htimeout, htimedOut]
      obtain h | h | h := hundisturbed
      · exact .inl (hsome h)
      · exact .inr (.inl (hwatcher h))
      · exact .inr (.inr h)
    · exact hundisturbed
    · rw [hended, htimeout]
      exact hundisturbed
    · rw [hended, htimeout]
      obtain ⟨w, own, hw, hown, hlawful⟩ := hundisturbed
      exact ⟨w, own, hw, htask own hown, hlawful⟩

theorem sound_waiting {waiter : Waiter} (hpc : s.pc = .waiting waiter)
    (hundisturbed : s.external = false → s.mustCancel = false ∧ Undisturbed s) : Sound s := by
  constructor
  · exact fun h => absurd hpc (h waiter)
  · intro pending h
    rw [hpc] at h
    cases h
  · intro outcome h
    rw [hpc] at h
    cases h
  · exact hundisturbed

/-- A cancellation of the caller ends its wait, or is still to come, or goes on to the task. -/
theorem cancel_cases (s : Guard V E) :
    s.cancel = { s with external := true, pc := .waiting .cancelled } ∨
      s.cancel = { s with external := true, mustCancel := true } ∨
      s.cancel = { s with external := true, requests := s.requests + 1 } ∨ s.cancel = s := by
  unfold Guard.cancel
  split
  · exact .inl rfl
  · exact .inr (.inl rfl)
  · exact .inr (.inl rfl)
  · split
    · exact .inr (.inr (.inl rfl))
    · exact .inr (.inl rfl)
  · exact .inr (.inr (.inr rfl))

theorem sound_cancel (hs : Sound s) : Sound s.cancel := by
  obtain heq | heq | heq | heq := cancel_cases s
  · rw [heq]
    exact sound_waiting rfl (by simp)
  · rw [heq]
    exact ⟨hs.watcher, hs.cleaning, hs.exited, by simp⟩
  · rw [heq]
    exact ⟨hs.watcher, fun _ _ => Nat.succ_pos _, hs.exited, by simp⟩
  · rw [heq]
    exact hs

/-- Every step keeps the guard sound. -/
theorem sound_step (h : Step s t) (hs : Sound s) : Sound t := by
  cases h with
  | disconnects => exact sound_congr hs rfl rfl (fun _ h => h) id rfl rfl rfl rfl rfl rfl
  | polls hwatcher hruns =>
    refine sound_congr hs rfl rfl (fun _ h => h) ?_ rfl rfl rfl rfl rfl rfl
    simp [hwatcher, WatcherPc.isDone]
  | wakes hwatcher hruns =>
    refine sound_congr hs rfl rfl (fun _ h => h) ?_ rfl rfl rfl rfl rfl rfl
    simp [hwatcher, WatcherPc.isDone]
  | fails hwatcher hruns =>
    refine sound_congr hs rfl rfl (fun _ h => h) ?_ rfl rfl rfl rfl rfl rfl
    simp [hwatcher, WatcherPc.isDone]
  | finishes own htask =>
    refine sound_congr hs rfl rfl ?_ id rfl rfl rfl rfl rfl rfl
    simp [htask]
  | completes hpc hdone =>
    apply sound_waiting rfl
    intro hexternal
    refine ⟨(hs.undisturbed hexternal).1, ?_⟩
    exact hdone.imp_right .inl
  | expires htimeout hpc =>
    apply sound_waiting rfl
    intro hexternal
    exact ⟨(hs.undisturbed hexternal).1, .inr (.inr ⟨htimeout, rfl⟩)⟩
  | resumes hpc hmust => exact sound_resume hs hpc
  | interrupted hpc =>
    -- only a caller that was cancelled comes here
    have hexternal : s.external ≠ false := by
      intro hexternal
      obtain ⟨hmust, hundisturbed⟩ := hs.undisturbed hexternal
      obtain hpc | ⟨-, hmust'⟩ := hpc
      · rw [Undisturbed, hpc] at hundisturbed
        exact hundisturbed
      · rw [hmust] at hmust'
        cases hmust'
    exact sound_leave (fun h => absurd h hexternal) (fun h => absurd h hexternal)
      (fun h => absurd h hexternal)
  | awakes hpc htask => exact sound_awake hs hpc htask
  | cancels => exact sound_cancel hs

theorem leave_timeout (s : Guard V E) (pending : Outcome V E) :
    (s.leave pending).timeout = s.timeout := by
  unfold Guard.leave
  split <;> rfl

theorem timeout_step (h : Step s t) : t.timeout = s.timeout := by
  cases h with
  | disconnects => rfl
  | polls => rfl
  | wakes => rfl
  | fails => rfl
  | finishes => rfl
  | completes => rfl
  | expires => rfl
  | resumes =>
    rw [resume_eq]
    exact leave_timeout _ _
  | interrupted => exact leave_timeout _ _
  | awakes =>
    unfold Guard.awake
    split <;> rfl
  | cancels => obtain heq | heq | heq | heq := cancel_cases s <;> rw [heq]

/-- Every state that is reached is sound, under the timeout it started with. -/
theorem sound_reachable (h : Reachable timeout external s) : Sound s ∧ s.timeout = timeout := by
  induction h with
  | refl =>
    refine ⟨sound_waiting rfl ?_, rfl⟩
    intro hexternal
    have hfalse : external = false := hexternal
    subst hfalse
    exact ⟨rfl, trivial⟩
  | tail _ hstep ih => exact ⟨sound_step hstep ih.1, (timeout_step hstep).trans ih.2⟩

/-- The watcher sees only a client that is gone. -/
def Honest (s : Guard V E) : Prop :=
  (s.watcher = .saw → s.gone = true) ∧ ∀ w, s.ended = some w → w.watcher = .saw → s.gone = true

theorem honest_leave {pending : Outcome V E} (hs : Honest s) : Honest (s.leave pending) := by
  unfold Guard.leave
  split <;> exact hs

/-- No step lets the watcher see a client that is there. -/
theorem honest_step (h : Step s t) (hs : Honest s) : Honest t := by
  cases h with
  | disconnects => exact ⟨fun _ => rfl, fun _ _ _ => rfl⟩
  | polls hwatcher hruns =>
    refine ⟨?_, hs.2⟩
    intro hsaw
    cases hgone : s.gone with
    | true => rfl
    | false => simp [hgone] at hsaw
  | wakes => exact ⟨fun hsaw => absurd hsaw (by simp), hs.2⟩
  | fails => exact ⟨fun hsaw => absurd hsaw (by simp), hs.2⟩
  | finishes => exact hs
  | completes => exact hs
  | expires => exact hs
  | resumes =>
    rw [resume_eq]
    apply honest_leave
    refine ⟨hs.1, ?_⟩
    rintro w ⟨rfl⟩
    exact hs.1
  | interrupted => exact honest_leave hs
  | awakes =>
    unfold Guard.awake
    split <;> exact hs
  | cancels => obtain heq | heq | heq | heq := cancel_cases s <;> rw [heq] <;> exact hs

/-- In no state that is reached has it seen one. -/
theorem honest_reachable (h : Reachable timeout external s) : Honest s := by
  induction h with
  | refl => exact ⟨fun hsaw => (by cases hsaw), fun w hw => (by cases hw)⟩
  | tail _ hstep ih => exact honest_step hstep ih

/-- When `run` exits, the wrapped task is done and the watcher cancelled, whoever was cancelled
and when; and without a cancellation from outside it exits as it must. -/
theorem query_guard_stops (timeout external : Bool) (s : Guard V E)
    (h : Reachable timeout external s)
    (outcome : Outcome V E) (hexit : s.pc = .exited outcome) :
    (∃ own, s.task = some own) ∧ s.watcherCancelled = true ∧
      (s.external = false → ∃ w own,
        s.ended = some w ∧ s.task = some own ∧ Lawful timeout w own outcome ∧
        (w.watcher = .saw → s.gone = true)) := by
  have hhonest := honest_reachable h
  obtain ⟨hs, rfl⟩ := sound_reachable h
  refine ⟨Option.isSome_iff_exists.mp (hs.exited outcome hexit), hs.watcher (by simp [hexit]), ?_⟩
  intro hexternal
  have hundisturbed := (hs.undisturbed hexternal).2
  rw [Undisturbed, hexit] at hundisturbed
  obtain ⟨w, own, hended, hown, hlawful⟩ := hundisturbed
  exact ⟨w, own, hended, hown, hlawful, hhonest.2 w hended⟩

/-- The client goes away, the task delays its end and returns at last: the outcome is the
exception of the disconnect. -/
theorem query_guard_stops_disconnected :
    ∃ s : Guard Nat String, Reachable false false s ∧ s.pc = .exited .exception ∧
      s.task = some (.returned 1) := by
  have hgone : Reachable false false _ :=
    .single (Step.disconnects (Guard.start (V := Nat) (E := String) false false))
  have hsaw := hgone.tail (.polls rfl rfl)
  have hset := hsaw.tail (.completes rfl (.inr rfl))
  have hcleaning := hset.tail (.resumes rfl rfl)
  have hreturned := hcleaning.tail (.finishes (.returned 1) rfl)
  have hexited := hreturned.tail (.awakes rfl rfl)
  obtain ⟨⟨own, hown⟩, -, -⟩ := query_guard_stops false false _ hexited .exception rfl
  refine ⟨_, hexited, rfl, ?_⟩
  cases hown
  rfl

end Runs

end QueryGuards

import Mathlib.Data.List.Basic
import Mathlib.Logic.Function.Basic
import Mathlib.Logic.Relation

/-!
# Overlapping executions of a scheduled action

One scheduled action, any number of beat workers that dispatch it and any number of
message-bus workers that execute it. A beat worker asks the backend for the in-execution
count before it dispatches; a worker's callback skips a trigger while its own current task
is not done. The markers behind the count are set by `in_execution`, which no worker
enters, so no step here sets one.
-/
namespace ScheduledOverlap

/-- Where a beat worker stands with the action: the occurrence is due, or it also passed
the in-execution check. -/
inductive BeatPc where
  | idle
  | due
  | clear
  deriving DecidableEq

/-- Where a trigger stands: in the queue, in the callback of a worker, a task that waits for
its processing slot, a task that runs the action, or past all that. -/
inductive Stage (ω : Type) where
  | queued
  | arrived (w : ω)
  | waiting (w : ω)
  | executing (w : ω)
  | over
  deriving DecidableEq

/-- The worker whose task it is. -/
def Stage.task? {ω : Type} : Stage ω → Option ω
  | .waiting w | .executing w => some w
  | .queued | .arrived _ | .over => none

structure System (β ω : Type) where
  beats : β → BeatPc := fun _ => .idle
  /-- every trigger that was published, in order -/
  triggers : List (Stage ω) := []
  /-- `_current_task` of each worker's callback -/
  currentTask : ω → Option Nat := fun _ => none
  /-- the timestamps of the `in_execution` keys of the action -/
  executionIndicators : List Int := []

variable {β ω : Type}

def getInExecutionCount (s : System β ω) : Nat := s.executionIndicators.length

/-- `self._current_task is not None and not self._current_task.done()`. -/
def StillRunning (s : System β ω) (w : ω) : Prop :=
  ∃ i, s.currentTask w = some i ∧ s.triggers[i]? ≠ some .over

def System.beat [DecidableEq β] (s : System β ω) (b : β) (pc : BeatPc) : System β ω :=
  { s with beats := Function.update s.beats b pc }

def System.put (s : System β ω) (i : Nat) (stage : Stage ω) : System β ω :=
  { s with triggers := s.triggers.set i stage }

def System.publish (s : System β ω) : System β ω := { s with triggers := s.triggers ++ [.queued] }

def System.create [DecidableEq ω] (s : System β ω) (w : ω) (i : Nat) : System β ω :=
  { s.put i (.waiting w) with currentTask := Function.update s.currentTask w (some i) }

inductive Act (β ω : Type) where
  | looks (b : β)
  | skips (b : β)
  | clears (b : β)
  | republishes (b : β)
  | dispatches (b : β)
  | gives (b : β)
  | trigger (i : Nat)

/-- One step of a beat worker or of a message-bus worker, for an action declared with
`allow_overlap` as given. -/
inductive Step [DecidableEq β] [DecidableEq ω] (allowOverlap : Bool) :
    Act β ω → System β ω → System β ω → Prop
  -- the action was never dispatched, or its next run is not later than now
  | looks {s b} (h : s.beats b = .idle) : Step allowOverlap (.looks b) s (s.beat b .due)
  | skips {s b} (h : s.beats b = .due) (hallow : allowOverlap = false)
      (hcount : 0 < getInExecutionCount s) :
      Step allowOverlap (.skips b) s (s.beat b .idle)
  | clears {s b} (h : s.beats b = .due) (hpass : allowOverlap = true ∨ getInExecutionCount s = 0) :
      Step allowOverlap (.clears b) s (s.beat b .clear)
  -- the publish took effect, its confirmation was lost, and it is tried again
  | republishes {s b} (h : s.beats b = .clear) : Step allowOverlap (.republishes b) s s.publish
  | dispatches {s b} (h : s.beats b = .clear) :
      Step allowOverlap (.dispatches b) s (s.publish.beat b .idle)
  -- the dispatch raises, or the lock is lost
  | gives {s b} : Step allowOverlap (.gives b) s (s.beat b .idle)
  | delivers {s i} (w : ω) (h : s.triggers[i]? = some .queued) :
      Step allowOverlap (.trigger i) s (s.put i (.arrived w))
  -- shutdown, or the connection is not healthy: a delivery without ack cannot go back
  | drops {s i w} (h : s.triggers[i]? = some (.arrived w)) :
      Step allowOverlap (.trigger i) s (s.put i .over)
  | skipsTrigger {s i w} (h : s.triggers[i]? = some (.arrived w)) (hrunning : StillRunning s w) :
      Step allowOverlap (.trigger i) s (s.put i .over)
  | creates {s i w} (h : s.triggers[i]? = some (.arrived w)) (hdone : ¬StillRunning s w) :
      Step allowOverlap (.trigger i) s (s.create w i)
  | starts {s i w} (h : s.triggers[i]? = some (.waiting w)) :
      Step allowOverlap (.trigger i) s (s.put i (.executing w))
  | quits {s i w} (h : s.triggers[i]? = some (.waiting w)) :
      Step allowOverlap (.trigger i) s (s.put i .over)
  | ends {s i w} (h : s.triggers[i]? = some (.executing w)) :
      Step allowOverlap (.trigger i) s (s.put i .over)

variable [DecidableEq β] [DecidableEq ω]

/-- A run from the start whose steps all satisfy `P` in the state they start from. -/
def Reached (allowOverlap : Bool) (P : System β ω → Act β ω → Prop) : System β ω → Prop :=
  Relation.ReflTransGen (fun s s' => ∃ a, Step allowOverlap a s s' ∧ P s a) {}

/-- Two executions of the action are never in progress at once. -/
def Exclusive (s : System β ω) : Prop :=
  ∀ (i j : Nat) (w w' : ω), s.triggers[i]? = some (Stage.executing w) →
    s.triggers[j]? = some (Stage.executing w') → i = j

/-- No execution of the action is in progress. -/
def Quiet (s : System β ω) : Prop := ∀ (i : Nat) (w : ω), s.triggers[i]? ≠ some (Stage.executing w)

/-- The trigger has been published and is not past its execution. -/
def Outstanding (s : System β ω) (i : Nat) : Prop :=
  ∃ stage, s.triggers[i]? = some stage ∧ stage ≠ .over

/-- A beat worker passes the in-execution check only when every earlier trigger is past its
execution and no other beat worker is on its way to dispatch, and publishes once. -/
def Spaced (s : System β ω) : Act β ω → Prop
  | .clears _ => (∀ i, ¬Outstanding s i) ∧ ∀ b, s.beats b ≠ .clear
  | .republishes _ => False
  | _ => True

/-- At most one trigger is under way, from the check of the beat worker on. -/
structure Single (s : System β ω) : Prop where
  triggers : ∀ i j, Outstanding s i → Outstanding s j → i = j
  beats : ∀ b b', s.beats b = .clear → s.beats b' = .clear → b = b'
  apart : ∀ b i, s.beats b = .clear → ¬Outstanding s i

/-- A task that is not done is the current task of its worker. -/
def Guarded (s : System β ω) : Prop :=
  ∀ (i : Nat) (w : ω) (stage : Stage ω), s.triggers[i]? = some stage → stage.task? = some w →
    s.currentTask w = some i

section Updates

variable {s : System β ω}

omit [DecidableEq β] [DecidableEq ω] in
theorem put_triggers {i : Nat} {old : Stage ω} (h : s.triggers[i]? = some old)
    (stage : Stage ω) (j : Nat) :
    (s.put i stage).triggers[j]? = if j = i then some stage else s.triggers[j]? := by
  obtain ⟨hlt, -⟩ := List.getElem?_eq_some_iff.mp h
  change (s.triggers.set i stage)[j]? = _
  rw [List.getElem?_set]
  by_cases hj : j = i
  · simp [hj, hlt]
  · simp [hj, Ne.symm hj]

omit [DecidableEq β] [DecidableEq ω] in
/-- A step of one trigger makes no other one outstanding. -/
theorem outstanding_put {i : Nat} {old : Stage ω} (h : s.triggers[i]? = some old)
    (hold : old ≠ .over)
    {stage : Stage ω} {j : Nat} (hj : Outstanding (s.put i stage) j) : Outstanding s j := by
  obtain ⟨stage', hstage', hne⟩ := hj
  rw [put_triggers h] at hstage'
  split at hstage'
  · rename_i heq
    rw [heq]
    exact ⟨old, h, hold⟩
  · exact ⟨stage', hstage', hne⟩

omit [DecidableEq β] [DecidableEq ω] in
theorem outstanding_publish {i : Nat} (h : Outstanding s.publish i) :
    Outstanding s i ∨ i = s.triggers.length := by
  obtain ⟨stage, hstage, hne⟩ := h
  change (s.triggers ++ [Stage.queued])[i]? = some stage at hstage
  by_cases hi : i < s.triggers.length
  · rw [List.getElem?_append_left hi] at hstage
    exact .inl ⟨stage, hstage, hne⟩
  · obtain ⟨hlt, -⟩ := List.getElem?_eq_some_iff.mp hstage
    rw [List.length_append, List.length_singleton] at hlt
    exact .inr (by omega)

omit [DecidableEq ω] in
@[simp] theorem beat_beats (b c : β) (pc : BeatPc) : (s.beat b pc).beats c = if c = b then pc
    else s.beats c := by
  simp [System.beat, Function.update_apply]

end Updates

section Steps

variable {allowOverlap : Bool} {s s' : System β ω} {a : Act β ω}

omit [DecidableEq ω] in
/-- A beat worker that goes on to a place other than `clear`. -/
theorem Single.beat (h : Single s) (b : β) {pc : BeatPc} (hpc : pc ≠ .clear) :
    Single (s.beat b pc) := by
  have hclear : ∀ c, (s.beat b pc).beats c = .clear → s.beats c = .clear := by
    intro c hc
    rw [beat_beats] at hc
    split at hc
    · exact absurd hc hpc
    · exact hc
  exact ⟨h.triggers, fun c c' hc hc' => h.beats c c' (hclear c hc) (hclear c' hc'),
    fun c i hc => h.apart c i (hclear c hc)⟩

omit [DecidableEq β] [DecidableEq ω] in
/-- A trigger goes on, whatever the current tasks are then. -/
theorem Single.put (h : Single s) {i : Nat} {old : Stage ω} (hi : s.triggers[i]? = some old)
    (hold : old ≠ .over) (stage : Stage ω) (current : ω → Option Nat) :
    Single { s.put i stage with currentTask := current } :=
  ⟨fun j k hj hk => h.triggers j k (outstanding_put hi hold hj) (outstanding_put hi hold hk),
    h.beats,
    fun b j hb hj => h.apart b j hb (outstanding_put hi hold hj)⟩

omit [DecidableEq ω] in
/-- The one beat worker that passed its check publishes. -/
theorem Single.dispatch (h : Single s) {b : β} (hb : s.beats b = .clear) :
    Single (s.publish.beat b .idle) := by
  have hnone : ∀ i, ¬Outstanding s i := fun i => h.apart b i hb
  have hnew : ∀ i, Outstanding (s.publish.beat b .idle) i → i = s.triggers.length := by
    intro i hi
    exact (outstanding_publish hi).resolve_left (hnone i)
  have hbeats : ∀ c, (s.publish.beat b .idle).beats c ≠ .clear := by
    intro c hc
    rw [beat_beats] at hc
    split at hc
    · cases hc
    · rename_i hne
      exact hne (h.beats c b hc hb)
  exact ⟨fun i j hi hj => (hnew i hi).trans (hnew j hj).symm, fun c _ hc => absurd hc (hbeats c),
    fun c _ hc => absurd hc (hbeats c)⟩

/-- One step of a spaced run. -/
theorem step_single (hstep : Step allowOverlap a s s') (hspaced : Spaced s a) (h : Single s) :
    Single s' := by
  cases hstep with
  | looks hb => exact h.beat _ (by decide)
  | skips hb hallow hcount => exact h.beat _ (by decide)
  | @clears _ b hb hpass =>
    obtain ⟨hover, hbeats⟩ := hspaced
    have honly : ∀ c, (s.beat b .clear).beats c = .clear → c = b := by
      intro c hc
      rw [beat_beats] at hc
      split at hc
      · assumption
      · exact absurd hc (hbeats c)
    exact ⟨fun i _ hi => absurd hi (hover i),
      fun c c' hc hc' => (honly c hc).trans (honly c' hc').symm,
      fun c i _ => hover i⟩
  | republishes hb => exact hspaced.elim
  | dispatches hb => exact h.dispatch hb
  | gives => exact h.beat _ (by decide)
  | delivers w hi => exact h.put hi (by simp) _ _
  | drops hi => exact h.put hi (by simp) _ _
  | skipsTrigger hi hrunning => exact h.put hi (by simp) _ _
  | creates hi hdone => exact h.put hi (by simp) _ _
  | starts hi => exact h.put hi (by simp) _ _
  | quits hi => exact h.put hi (by simp) _ _
  | ends hi => exact h.put hi (by simp) _ _

omit [DecidableEq β] [DecidableEq ω] in
/-- A trigger goes on without becoming a task. -/
theorem Guarded.put (h : Guarded s) {i : Nat} {old stage : Stage ω} (hi : s.triggers[i]? = some old)
    (hkeep : ∀ w, stage.task? = some w → old.task? = some w) : Guarded (s.put i stage) := by
  intro j w stage' hj hw
  rw [put_triggers hi] at hj
  split at hj
  · rename_i heq
    cases hj
    rw [heq]
    exact h i w old hi (hkeep w hw)
  · exact h j w stage' hj hw

omit [DecidableEq β] [DecidableEq ω] in
/-- A new trigger has no task yet. -/
theorem Guarded.publish (h : Guarded s) : Guarded s.publish := by
  intro i w stage hi hw
  change (s.triggers ++ [Stage.queued])[i]? = some stage at hi
  by_cases hlt : i < s.triggers.length
  · rw [List.getElem?_append_left hlt] at hi
    exact h i w stage hi hw
  · rw [List.getElem?_append_right (Nat.le_of_not_lt hlt)] at hi
    obtain ⟨hzero, hstage⟩ := List.getElem?_eq_some_iff.mp hi
    rw [List.getElem_singleton] at hstage
    rw [← hstage] at hw
    cases hw

omit [DecidableEq β] in
/-- The guard of the callback: the worker has no other task that is not done. -/
theorem Guarded.create (h : Guarded s) {i : Nat} {w : ω} (hi : s.triggers[i]? = some (.arrived w))
    (hdone : ¬StillRunning s w) : Guarded (s.create w i) := by
  intro j w' stage hj hw'
  change (s.put i (.waiting w)).triggers[j]? = some stage at hj
  rw [put_triggers hi] at hj
  change Function.update s.currentTask w (some i) w' = some j
  split at hj
  · rename_i heq
    cases hj
    cases hw'
    rw [Function.update_self, heq]
  · have hcurrent := h j w' stage hj hw'
    have hne : w' ≠ w := by
      rintro rfl
      refine hdone ⟨j, hcurrent, ?_⟩
      rw [hj]
      intro hover
      cases hover
      cases hw'
    rw [Function.update_of_ne hne, hcurrent]

/-- One step of any run. -/
theorem step_guarded (hstep : Step allowOverlap a s s') (h : Guarded s) : Guarded s' := by
  cases hstep with
  | looks hb => exact h
  | skips hb hallow hcount => exact h
  | clears hb hpass => exact h
  | republishes hb => exact h.publish
  | dispatches hb => exact h.publish
  | gives => exact h
  | delivers w hi => exact h.put hi fun w' hw' => by cases hw'
  | drops hi => exact h.put hi fun w' hw' => by cases hw'
  | skipsTrigger hi hrunning => exact h.put hi fun w' hw' => by cases hw'
  | creates hi hdone => exact h.create hi hdone
  | starts hi => exact h.put hi fun w' hw' => hw'
  | quits hi => exact h.put hi fun w' hw' => by cases hw'
  | ends hi => exact h.put hi fun w' hw' => by cases hw'

/-- No step sets a marker. -/
theorem step_indicators (hstep : Step allowOverlap a s s') :
    s'.executionIndicators = s.executionIndicators := by
  cases hstep <;> rfl

/-- In a spaced run at most one trigger is under way. -/
theorem reached_single (hrun : Reached allowOverlap Spaced s) : Single s := by
  induction hrun with
  | refl =>
    refine ⟨?_, ?_, ?_⟩
    · rintro i j ⟨stage, hstage, -⟩
      cases hstage
    · intro b b' hb
      cases hb
    · intro b i hb
      cases hb
  | tail _ hstep ih =>
    obtain ⟨a, hstep, hspaced⟩ := hstep
    exact step_single hstep hspaced ih

/-- In every run the executions are guarded, and no indicator is set. -/
theorem reached_guarded {P : System β ω → Act β ω → Prop} (hrun : Reached allowOverlap P s) :
    Guarded s ∧ s.executionIndicators = [] := by
  induction hrun with
  | refl =>
    refine ⟨?_, rfl⟩
    intro i w stage hi
    cases hi
  | tail _ hstep ih =>
    obtain ⟨a, hstep, -⟩ := hstep
    exact ⟨step_guarded hstep ih.1, (step_indicators hstep).trans ih.2⟩

end Steps

/-- For any beat workers and message-bus workers. In a run in which beat workers pass the
in-execution check only after every earlier trigger is past its execution, no two
executions are in progress at once and no dispatch is made during one. In every run one
worker executes the action at most once at a time; and the in-execution count is zero
throughout, so the check itself holds nobody back. -/
theorem no_overlap_when_spaced (s : System β ω) :
    (Reached false Spaced s → Exclusive s ∧
      ∀ b s', Step false (.dispatches b) s s' → Quiet s) ∧
    (Reached false (fun _ _ => True) s →
      (∀ (i j : Nat) (w : ω), s.triggers[i]? = some (.executing w) →
        s.triggers[j]? = some (.executing w) → i = j) ∧
      getInExecutionCount s = 0) := by
  constructor
  · intro hrun
    have hsingle := reached_single hrun
    have hout : ∀ (i : Nat) (w : ω), s.triggers[i]? = some (.executing w) → Outstanding s i :=
      fun i w hi => ⟨_, hi, by simp⟩
    constructor
    · intro i j w w' hi hj
      exact hsingle.triggers i j (hout i w hi) (hout j w' hj)
    · intro b s' hstep i w hi
      cases hstep with
      | dispatches hb => exact hsingle.apart b i hb (hout i w hi)
  · intro hrun
    obtain ⟨hguarded, hnone⟩ := reached_guarded hrun
    refine ⟨?_, by rw [getInExecutionCount, hnone]; rfl⟩
    intro i j w hi hj
    have hcurrent := hguarded i w _ hi rfl
    rw [hguarded j w _ hj rfl] at hcurrent
    exact (Option.some.inj hcurrent).symm

/-- One beat worker, two message-bus workers; the first executes the first trigger. -/
def firstExecuting : System Unit Bool :=
  ((((({} : System Unit Bool).beat () .due).beat () .clear).publish.beat () .idle).put 0
    (.arrived true)).create true 0 |>.put 0 (.executing true)

theorem firstExecuting_reached : Reached false Spaced firstExecuting := by
  have hempty : ∀ i, ¬Outstanding (({} : System Unit Bool).beat () .due) i := by
    rintro i ⟨stage, hstage, -⟩
    cases hstage
  have hbeats : ∀ b, (({} : System Unit Bool).beat () .due).beats b ≠ .clear := by
    intro b
    simp
  have h1 : Reached false Spaced (({} : System Unit Bool).beat () .due) :=
    .single ⟨_, .looks rfl, trivial⟩
  have h2 : Reached false Spaced ((({} : System Unit Bool).beat () .due).beat () .clear) :=
    .tail h1 ⟨_, .clears rfl (.inr rfl), hempty, hbeats⟩
  have h3 := h2.tail ⟨_, .dispatches (b := ()) rfl, trivial⟩
  have h4 := h3.tail ⟨_, .delivers (i := 0) true rfl, trivial⟩
  have hdone : ¬StillRunning
      ((((({} : System Unit Bool).beat () .due).beat () .clear).publish.beat ()
      .idle).put 0 (.arrived true)) true := by
    rintro ⟨i, hi, -⟩
    cases hi
  have h5 := h4.tail ⟨_, .creates (i := 0) rfl hdone, trivial⟩
  exact h5.tail ⟨_, .starts (i := 0) rfl, trivial⟩

/-- Its execution is the only one. -/
theorem firstExecuting_exclusive : Reached false Spaced firstExecuting ∧
    firstExecuting.triggers = [.executing true] ∧ Exclusive firstExecuting :=
  ⟨firstExecuting_reached, rfl,
    ((no_overlap_when_spaced firstExecuting).1 firstExecuting_reached).1⟩

/-- The action is due again while it is executed: the check finds no marker. -/
def secondCleared : System Unit Bool := (firstExecuting.beat () .due).beat () .clear

def secondExecuting : System Unit Bool :=
  ((secondCleared.publish.beat () .idle).put 1 (.arrived false)).create false 1 |>.put 1
    (.executing false)

/-- The beat worker dispatches during an execution, and two executions run at once. -/
theorem executions_overlap :
    Reached false (fun _ _ => True) secondCleared ∧ ¬Quiet secondCleared ∧
    (∃ s', Step false (.dispatches ()) secondCleared s') ∧
    Reached false (fun _ _ => True) secondExecuting ∧ ¬Exclusive secondExecuting := by
  have hfirst : Reached false (fun _ _ => True) firstExecuting :=
    Relation.ReflTransGen.mono (fun _ _ ⟨a, h, _⟩ => ⟨a, h, trivial⟩) _ _ firstExecuting_reached
  have hcleared : Reached false (fun _ _ => True) secondCleared :=
    (hfirst.tail ⟨_, .looks (b := ()) rfl, trivial⟩).tail ⟨_, .clears rfl (.inr rfl), trivial⟩
  have hdispatches :
      Step false (.dispatches ()) secondCleared (secondCleared.publish.beat () .idle) :=
    .dispatches rfl
  have hdone : ¬StillRunning
      ((secondCleared.publish.beat () .idle).put 1 (.arrived false)) false := by
    rintro ⟨i, hi, -⟩
    cases hi
  have hexecuting : Reached false (fun _ _ => True) secondExecuting :=
    (((hcleared.tail ⟨_, hdispatches, trivial⟩).tail
      ⟨_, .delivers (i := 1) false rfl, trivial⟩).tail
      ⟨_, .creates (i := 1) rfl hdone, trivial⟩).tail ⟨_, .starts (i := 1) rfl, trivial⟩
  refine ⟨hcleared, ?_, ⟨_, hdispatches⟩, hexecuting, ?_⟩
  · intro hquiet
    exact hquiet 0 true rfl
  · intro hexclusive
    exact absurd (hexclusive 0 1 true false rfl rfl) (by decide)

end ScheduledOverlap

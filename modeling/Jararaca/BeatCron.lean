import Mathlib.Logic.Relation
import Mathlib.Order.Bounds.Basic
import Jararaca.Messages

/-!
# Cron occurrences over many beat workers

`run_scheduled_actions` of scheduler/beat_worker.py, any number of workers over one
backend. Every await of the loop body is a step of its own, so the interleavings are those
of the event loops; the beat lock is the only thing that orders them. A cycle reads the
clock once at its start and once more at each due check.
-/
namespace BeatCron

open Messages

/-- croniter: `getNext` returns the least occurrence strictly after its start. -/
structure Croniter where
  occurs : String → Int → Prop
  getNext : String → Int → Int
  least : ∀ cron start, IsLeast {t | occurs cron t ∧ start < t} (getNext cron start)

theorem Croniter.after (croniter : Croniter) (cron : String) (start : Int) :
    start < croniter.getNext cron start := (croniter.least cron start).1.2

/-- The options of a scheduled action that the loop reads. -/
structure ScheduledAction where
  cron : String
  allowOverlap : Bool

/-- What the workers run: the actions by function id, and the list of each worker. -/
structure Plan (W : Type) where
  croniter : Croniter
  action : String → ScheduledAction
  actions : W → List String

/-- `cron.get_next` from a stored time. -/
def Plan.nextRun {W : Type} (plan : Plan W) (functionId : String) (lastDispatchTime : Int) : Int :=
  plan.croniter.getNext (plan.action functionId).cron lastDispatchTime

/-- Where a worker is; `now` is the clock at the start of its cycle. -/
inductive Phase where
  | idle
  | waiting (now : Int) (functionIds : List String)
  | holding
deriving DecidableEq

/-- How far the holder of the lock is with its action. -/
inductive Stage where
  | entered
  | read (lastDispatchTime : Option Int)
  | due (lastDispatchTime : Option Int)
  | dispatched (lastDispatchTime : Option Int)
  | leaving

/-- The turn of one action: who holds the beat lock, and its local variables. -/
structure Turn (W : Type) where
  worker : W
  now : Int
  functionId : String
  rest : List String
  stage : Stage

/-- One dispatch with the stored time it was decided on and the time it stores. -/
structure Dispatch where
  functionId : String
  lastDispatchTime : Option Int
  now : Int

/-- The workers and the backend. The lock is exclusive, so there is at most one turn. -/
structure Beat (W : Type) where
  clock : ℚ
  turn : Option (Turn W)
  stored : String → Option Int
  phase : W → Phase
  dispatches : List Dispatch

variable {W : Type}

/-- No worker has started yet; the backend may hold times from before. -/
def initial (clock : ℚ) (stored : String → Option Int) : Beat W :=
  ⟨clock, none, stored, fun _ => .idle, []⟩

def Beat.goto [DecidableEq W] (s : Beat W) (w : W) (p : Phase) : Beat W :=
  { s with phase := Function.update s.phase w p }

/-- The holder of the lock goes on to the next stage. -/
def Beat.advance (s : Beat W) (t : Turn W) (stage : Stage) : Beat W :=
  { s with turn := some { t with stage := stage } }

/-- One step of one worker, or of the clock. `P` says which dispatches may occur. -/
inductive Step [DecidableEq W] (plan : Plan W) (P : String → Option Int → Int → Prop) :
    Beat W → Beat W → Prop where
  | tick {s : Beat W} (time : ℚ) (later : s.clock ≤ time) : Step plan P s { s with clock := time }
  /-- `now = int(time.time())` -/
  | startCycle {s : Beat W} (w : W) (here : s.phase w = .idle) :
      Step plan P s (s.goto w (.waiting (truncate s.clock) (plan.actions w)))
  | endCycle {s : Beat W} (w : W) {now : Int} (here : s.phase w = .waiting now []) :
      Step plan P s (s.goto w .idle)
  /-- `BrokerBackendLockNotAcquired` -/
  | lockNotAcquired {s : Beat W} (w : W) {now : Int} {id : String} {rest : List String}
      (here : s.phase w = .waiting now (id :: rest)) : Step plan P s (s.goto w (.waiting now rest))
  | acquire {s : Beat W} (w : W) {now : Int} {id : String} {rest : List String}
      (here : s.phase w = .waiting now (id :: rest)) (free : s.turn = none) :
      Step plan P s { s.goto w .holding with turn := some ⟨w, now, id, rest, .entered⟩ }
  | getLastDispatchTime {s : Beat W} (t : Turn W) (here : s.turn = some t)
      (stage : t.stage = .entered) :
      Step plan P s (s.advance t (.read (s.stored t.functionId)))
  /-- `if next_run > datetime.now(configured_tz): continue` -/
  | notDue {s : Beat W} (t : Turn W) (here : s.turn = some t) {last : Int}
      (stage : t.stage = .read (some last)) (early : s.clock < plan.nextRun t.functionId last) :
      Step plan P s (s.advance t .leaving)
  | isDue {s : Beat W} (t : Turn W) (here : s.turn = some t) {last : Option Int}
      (stage : t.stage = .read last)
      (passed : ∀ l, last = some l → (plan.nextRun t.functionId l : ℚ) ≤ s.clock) :
      Step plan P s (s.advance t (.due last))
  /-- `get_in_execution_count` found a running execution -/
  | overlapping {s : Beat W} (t : Turn W) (here : s.turn = some t) {last : Option Int}
      (stage : t.stage = .due last) (count : Nat)
      (running : (plan.action t.functionId).allowOverlap = false ∧ 0 < count) :
      Step plan P s (s.advance t .leaving)
  | dispatchScheduledAction {s : Beat W} (t : Turn W) (here : s.turn = some t) {last : Option Int}
      (stage : t.stage = .due last) (count : Nat)
      (free : (plan.action t.functionId).allowOverlap = true ∨ count = 0)
      (allowed : P t.functionId last t.now) :
      Step plan P s { s.advance t (.dispatched last) with
        dispatches := s.dispatches ++ [⟨t.functionId, last, t.now⟩] }
  | setLastDispatchTime {s : Beat W} (t : Turn W) (here : s.turn = some t) {last : Option Int}
      (stage : t.stage = .dispatched last) :
      Step plan P s { s.advance t .leaving with
        stored := Function.update s.stored t.functionId (some t.now) }
  | release {s : Beat W} (t : Turn W) (here : s.turn = some t) (stage : t.stage = .leaving) :
      Step plan P s { s.goto t.worker (.waiting t.now t.rest) with turn := none }

def Runs [DecidableEq W] (plan : Plan W) (P : String → Option Int → Int → Prop) :
    Beat W → Beat W → Prop :=
  Relation.ReflTransGen (Step plan P)

/-- The occurrences served by the dispatches of an action that had a stored time. -/
def served (plan : Plan W) (id : String) (dispatches : List Dispatch) : List Int :=
  (dispatches.filter fun d => decide (d.functionId = id)).filterMap fun d =>
    d.lastDispatchTime.map (plan.nextRun id)

/-- The occurrence a dispatch serves had passed when its cycle started. -/
def Timely (plan : Plan W) (id : String) (last : Option Int) (now : Int) : Prop :=
  ∀ l, last = some l → plan.nextRun id l ≤ now

/-- The stored time the holder of the lock has read. -/
def Stage.seen : Stage → Option (Option Int)
  | .read last | .due last | .dispatched last => some last
  | .entered | .leaving => none

section Runs

variable {plan : Plan W} {s s' : Beat W}

theorem served_append (plan : Plan W) (id : String) (first second : List Dispatch) :
    served plan id (first ++ second) = served plan id first ++ served plan id second := by
  simp [served]

theorem served_other {d : Dispatch} {id : String} (h : d.functionId ≠ id) :
    served plan id [d] = [] := by
  simp [served, h]

/-- What the lock protects. -/
structure Guarded (plan : Plan W) (s : Beat W) : Prop where
  /-- what the holder has read is what is stored -/
  fresh : ∀ t last, s.turn = some t → t.stage.seen = some last → s.stored t.functionId = last
  timely : ∀ t last, s.turn = some t → t.stage = .dispatched last →
    Timely plan t.functionId last t.now
  /-- what was served is at or before what is stored, or about to be -/
  behind : ∀ id, ∀ o ∈ served plan id s.dispatches, (∃ l, s.stored id = some l ∧ o ≤ l) ∨
    ∃ t last, s.turn = some t ∧ t.functionId = id ∧ t.stage = .dispatched last ∧ o ≤ t.now
  increasing : ∀ id, (served plan id s.dispatches).Pairwise (· < ·)

/-- Nothing has been dispatched yet, so every bound on dispatches holds at the start. -/
theorem guarded_initial (clock : ℚ) (stored : String → Option Int) :
    Guarded plan (initial clock stored) where
  fresh := by simp [initial]
  timely := by simp [initial]
  behind := by simp [initial, served]
  increasing := by simp [initial, served]

/-- Steps outside of the turn keep what it protects. -/
theorem Guarded.outside (hg : Guarded plan s) (hturn : s'.turn = s.turn)
    (hstored : s'.stored = s.stored)
    (hdispatches : s'.dispatches = s.dispatches) : Guarded plan s' := by
  obtain ⟨hfresh, htimely, hbehind, hincreasing⟩ := hg
  constructor
  · rw [hturn, hstored]
    exact hfresh
  · rw [hturn]
    exact htimely
  · rw [hturn, hstored, hdispatches]
    exact hbehind
  · rw [hdispatches]
    exact hincreasing

/-- No dispatch is under way whose time is still to be stored. -/
def Settled (s : Beat W) : Prop := ∀ t last, s.turn = some t → t.stage ≠ .dispatched last

theorem settled_of_stage {t : Turn W} {stage : Stage} (hturn : s.turn = some t)
    (hstage : t.stage = stage) (hne : ∀ last, stage ≠ .dispatched last) : Settled s := by
  intro t' last ht'
  rw [hturn, Option.some.injEq] at ht'
  rw [← ht', hstage]
  exact hne last

/-- Without a dispatch under way, what was served is at or before what is stored. -/
theorem Guarded.settled (hg : Guarded plan s) (hs : Settled s) (id : String) :
    ∀ o ∈ served plan id s.dispatches, ∃ l, s.stored id = some l ∧ o ≤ l := by
  intro o ho
  obtain hstored | ⟨t, last, hturn, -, hstage, -⟩ := hg.behind id o ho
  · exact hstored
  · exact absurd hstage (hs t last hturn)

/-- Taking, moving on or giving up a turn without a dispatch under way. -/
theorem Guarded.moved (hg : Guarded plan s) (hs : Settled s) (hs' : Settled s')
    (hfresh : ∀ t last, s'.turn = some t → t.stage.seen = some last → s.stored t.functionId = last)
    (hstored : s'.stored = s.stored) (hdispatches : s'.dispatches = s.dispatches) :
    Guarded plan s' := by
  constructor
  · rw [hstored]
    exact hfresh
  · intro t last ht hstage
    exact absurd hstage (hs' t last ht)
  · intro id o ho
    rw [hdispatches] at ho
    rw [hstored]
    exact .inl (hg.settled hs id o ho)
  · rw [hdispatches]
    exact hg.increasing

/-- A stage of a turn that neither dispatches nor stores. -/
theorem Guarded.advanced (hg : Guarded plan s) {t : Turn W} {stage stage' : Stage}
    (hturn : s.turn = some t) (hstage : t.stage = stage) (hold : ∀ last, stage ≠ .dispatched last)
    (hnew : ∀ last, stage' ≠ .dispatched last)
    (hseen : ∀ last, stage'.seen = some last → s.stored t.functionId = last) :
    Guarded plan (s.advance t stage') := by
  refine hg.moved (settled_of_stage hturn hstage hold) (settled_of_stage rfl rfl hnew) ?_ rfl rfl
  intro t' last ht' hlast
  cases ht'
  exact hseen last hlast

/-- A dispatch keeps the invariant when its time is timely: the occurrence it serves is after the
last stored one, and no other dispatch has served it. -/
theorem Guarded.dispatching (hg : Guarded plan s) {t : Turn W} {last : Option Int}
    (hturn : s.turn = some t) (hstage : t.stage = .due last)
    (htimely : Timely plan t.functionId last t.now) :
    Guarded plan { s.advance t (.dispatched last) with
      dispatches := s.dispatches ++ [⟨t.functionId, last, t.now⟩] } := by
  have hlast : s.stored t.functionId = last := hg.fresh t last hturn (by simp [hstage, Stage.seen])
  have hsettled := hg.settled (settled_of_stage hturn hstage (by simp))
  constructor
  · intro t' last' ht' hseen
    cases ht'
    cases hseen
    exact hlast
  · intro t' last' ht' hstage'
    cases ht'
    cases hstage'
    exact htimely
  · intro id o ho
    rw [served_append] at ho
    obtain hold | hnew := List.mem_append.mp ho
    · exact .inl (hsettled id o hold)
    · by_cases hid : t.functionId = id
      · subst hid
        obtain ⟨l, hl, rfl⟩ : ∃ l, last = some l ∧ plan.nextRun t.functionId l = o := by
          simpa [served] using hnew
        exact .inr ⟨_, last, rfl, rfl, rfl, htimely l hl⟩
      · rw [served_other hid] at hnew
        cases hnew
  · intro id
    rw [served_append]
    by_cases hid : t.functionId = id
    · subst hid
      cases last with
      | none => simpa [served] using hg.increasing t.functionId
      | some l =>
        have hone : served plan t.functionId [⟨t.functionId, some l, t.now⟩] =
            [plan.nextRun t.functionId l] := by simp [served]
        rw [hone, List.pairwise_append]
        refine ⟨hg.increasing t.functionId, List.pairwise_singleton _ _, ?_⟩
        intro o ho o' ho'
        rw [List.mem_singleton.mp ho']
        -- what was served before is behind what this dispatch has read
        obtain ⟨l', hl', hle⟩ := hsettled t.functionId o ho
        rw [hlast, Option.some.injEq] at hl'
        have hafter := plan.croniter.after (plan.action t.functionId).cron l
        unfold Plan.nextRun
        omega
    · rw [served_other hid, List.append_nil]
      exact hg.increasing id

/-- Storing the time of the dispatch keeps the invariant: the stored time moves up to the
occurrence that was served. -/
theorem Guarded.storing (hg : Guarded plan s) {t : Turn W} {last : Option Int}
    (hturn : s.turn = some t) (hstage : t.stage = .dispatched last) :
    Guarded plan { s.advance t .leaving with
      stored := Function.update s.stored t.functionId (some t.now) } := by
  have hlast : s.stored t.functionId = last := hg.fresh t last hturn (by simp [hstage, Stage.seen])
  have htimely := hg.timely t last hturn hstage
  constructor
  · intro t' last' ht' hseen
    cases ht'
    cases hseen
  · intro t' last' ht' hstage'
    cases ht'
    cases hstage'
  · intro id o ho
    by_cases hid : id = t.functionId
    · subst hid
      refine .inl ⟨t.now, Function.update_self _ _ _, ?_⟩
      obtain ⟨l, hl, hle⟩ | ⟨t', last', ht', -, -, hle⟩ := hg.behind t.functionId o ho
      · have hnext := htimely l (hlast ▸ hl)
        have hafter := plan.croniter.after (plan.action t.functionId).cron l
        unfold Plan.nextRun at hnext
        omega
      · rw [hturn, Option.some.injEq] at ht'
        rw [ht']
        exact hle
    · have hkept : Function.update s.stored t.functionId (some t.now) id = s.stored id :=
        Function.update_of_ne hid _ _
      obtain ⟨l, hl, hle⟩ | ⟨t', last', ht', hid', -, -⟩ := hg.behind id o ho
      · exact .inl ⟨l, hkept.trans hl, hle⟩
      · rw [hturn, Option.some.injEq] at ht'
        rw [ht'] at hid
        exact absurd hid'.symm hid
  · exact hg.increasing

variable [DecidableEq W]

/-- Every step of every worker keeps the invariant, if the dispatches are timely. -/
theorem guarded_step (hg : Guarded plan s) (hstep : Step plan (Timely plan) s s') :
    Guarded plan s' := by
  cases hstep with
  | tick time later => exact hg.outside rfl rfl rfl
  | startCycle w here => exact hg.outside rfl rfl rfl
  | endCycle w here => exact hg.outside rfl rfl rfl
  | lockNotAcquired w here => exact hg.outside rfl rfl rfl
  | acquire w here free =>
    have hs : Settled s := by
      intro t last ht
      rw [free] at ht
      cases ht
    refine hg.moved hs (settled_of_stage rfl rfl (by simp)) ?_ rfl rfl
    intro t last ht hseen
    cases ht
    cases hseen
  | getLastDispatchTime t here stage =>
    exact hg.advanced here stage (by simp) (by simp) (by simp [Stage.seen])
  | notDue t here stage early =>
    exact hg.advanced here stage (by simp) (by simp) (by simp [Stage.seen])
  | isDue t here stage passed =>
    have hfresh := hg.fresh t _ here (by rw [stage]; rfl)
    exact hg.advanced here stage (by simp) (by simp) (by simp [Stage.seen, hfresh])
  | overlapping t here stage count running =>
    exact hg.advanced here stage (by simp) (by simp) (by simp [Stage.seen])
  | dispatchScheduledAction t here stage count free allowed =>
    exact hg.dispatching here stage allowed
  | setLastDispatchTime t here stage => exact hg.storing here stage
  | release t here stage =>
    refine hg.moved (settled_of_stage here stage (by simp)) ?_ ?_ rfl rfl
    · intro t' last ht'
      cases ht'
    · intro t' last ht'
      cases ht'

/-- A stored time never goes back. -/
theorem stored_step (hg : Guarded plan s) (hstep : Step plan (Timely plan) s s')
    {id : String} {l : Int}
    (hl : s.stored id = some l) : ∃ l', s'.stored id = some l' ∧ l ≤ l' := by
  cases hstep with
  | setLastDispatchTime t here stage =>
    by_cases hid : id = t.functionId
    · subst hid
      refine ⟨t.now, Function.update_self _ _ _, ?_⟩
      have hlast := hg.fresh t _ here (by rw [stage]; rfl)
      have hnext := hg.timely t _ here stage l (hlast ▸ hl)
      have hafter := plan.croniter.after (plan.action t.functionId).cron l
      unfold Plan.nextRun at hnext
      omega
    · exact ⟨l, (Function.update_of_ne hid _ _).trans hl, le_refl l⟩
  | _ => exact ⟨l, hl, le_refl l⟩

/-- So it holds in every state of a timely run. -/
theorem guarded_run (hg : Guarded plan s) (hrun : Runs plan (Timely plan) s s') :
    Guarded plan s' := by
  induction hrun with
  | refl => exact hg
  | tail _ hstep ih => exact guarded_step ih hstep

/-- A stored time never moves back in a run. -/
theorem stored_run (hg : Guarded plan s) (hrun : Runs plan (Timely plan) s s')
    {id : String} {l : Int}
    (hl : s.stored id = some l) : ∃ l', s'.stored id = some l' ∧ l ≤ l' := by
  induction hrun with
  | refl => exact ⟨l, hl, le_refl l⟩
  | tail hrun hstep ih =>
    obtain ⟨l₁, hl₁, hle₁⟩ := ih
    obtain ⟨l₂, hl₂, hle₂⟩ := stored_step (guarded_run hg hrun) hstep hl₁
    exact ⟨l₂, hl₂, hle₁.trans hle₂⟩

/-- Where every dispatch serves an occurrence that had passed when its cycle started, the
occurrences served are strictly increasing and the stored times never decrease. -/
theorem occurrences_served_once (clock : ℚ) (stored : String → Option Int)
    (hrun : Runs plan (Timely plan) (initial clock stored) s)
    (hlater : Runs plan (Timely plan) s s') :
    (∀ id, (served plan id s'.dispatches).Pairwise (· < ·)) ∧
      ∀ id l, s.stored id = some l → ∃ l', s'.stored id = some l' ∧ l ≤ l' := by
  have hg := guarded_run (guarded_initial clock stored) hrun
  exact ⟨(guarded_run hg hlater).increasing, fun id l hl => stored_run hg hlater hl⟩

theorem Step.startCycle_at (plan : Plan W) (P : String → Option Int → Int → Prop)
    {w : W} {now : Int}
    (hphase : s.phase w = .idle) (hclock : s.clock = now) :
    Step plan P s (s.goto w (.waiting now (plan.actions w))) := by
  have hstart : Step plan P s (s.goto w (.waiting (truncate s.clock) (plan.actions w))) :=
    .startCycle w hphase
  rwa [hclock, truncate_intCast] at hstart

/-- A due action is dispatched when its turn comes and the lock is free. -/
theorem due_turn (plan : Plan W) (P : String → Option Int → Int → Prop) {w : W} {now l : Int}
    {id : String} {rest : List String} (hphase : s.phase w = .waiting now (id :: rest))
    (hfree : s.turn = none)
    (hstored : s.stored id = some l) (hdue : (plan.nextRun id l : ℚ) ≤ s.clock)
    (hallowed : P id (some l) now) :
    ∃ s', Runs plan P s s' ∧ s'.clock = s.clock ∧ s'.turn = none ∧
      s'.phase w = .waiting now rest ∧ s'.stored id = some now ∧
      s'.dispatches = s.dispatches ++ [⟨id, some l, now⟩] := by
  have hpassed : ∀ l', s.stored id = some l' → (plan.nextRun id l' : ℚ) ≤ s.clock := by
    intro l' hl'
    rw [hstored, Option.some.injEq] at hl'
    rw [← hl']
    exact hdue
  have hallowed' : P id (s.stored id) now := by rwa [hstored]
  have hacquire : Step plan P s _ := .acquire w hphase hfree
  refine ⟨_, (((((Relation.ReflTransGen.single hacquire).tail
    (.getLastDispatchTime ⟨w, now, id, rest, .entered⟩ rfl rfl)).tail
    (.isDue ⟨w, now, id, rest, .read (s.stored id)⟩ rfl rfl hpassed)).tail
    (.dispatchScheduledAction ⟨w, now, id, rest, .due (s.stored id)⟩ rfl rfl 0 (.inr rfl)
      hallowed')).tail
    (.setLastDispatchTime ⟨w, now, id, rest, .dispatched (s.stored id)⟩ rfl rfl)).tail
    (.release ⟨w, now, id, rest, .leaving⟩ rfl rfl), rfl, rfl, ?_, ?_, ?_⟩
  · exact Function.update_self _ _ _
  · exact Function.update_self _ _ _
  · change s.dispatches ++ [⟨id, s.stored id, now⟩] = _
    rw [hstored]

/-- A dispatch of an occurrence that had not passed when its cycle started stores a time
before that occurrence, and the next turn of the action serves no later one. -/
theorem untimely_repeats (plan : Plan W) (P : String → Option Int → Int → Prop) {w : W}
    {now now' l : Int} {id : String} {rest : List String}
    (hphase : s.phase w = .waiting now' (id :: rest)) (hfree : s.turn = none)
    (hstored : s.stored id = some now) (huntimely : now < plan.nextRun id l)
    (hpassed : (plan.nextRun id l : ℚ) ≤ s.clock) (hallowed : P id (some now) now') :
    plan.nextRun id now ≤ plan.nextRun id l ∧
      ∃ s', Runs plan P s s' ∧ s'.dispatches = s.dispatches ++ [⟨id, some now, now'⟩] := by
  have hoccurs := (plan.croniter.least (plan.action id).cron l).1.1
  have hle : plan.nextRun id now ≤ plan.nextRun id l :=
    (plan.croniter.least (plan.action id).cron now).2 ⟨hoccurs, huntimely⟩
  have hdue : (plan.nextRun id now : ℚ) ≤ s.clock := by
    refine le_trans ?_ hpassed
    exact_mod_cast hle
  obtain ⟨s', hrun, -, -, -, -, hdispatches⟩ := due_turn plan P hphase hfree hstored hdue hallowed
  exact ⟨hle, s', hrun, hdispatches⟩

end Runs

/-- croniter on `* * * * *`. -/
def everyMinute : Croniter where
  occurs _ t := 60 ∣ t
  getNext _ start := (start / 60 + 1) * 60
  least _ start := by
    constructor
    · constructor
      · exact ⟨start / 60 + 1, by ring⟩
      · omega
    · rintro t ⟨⟨k, rfl⟩, hlt⟩
      omega

def cleanup : String := "app.tasks.Tasks.cleanup"

/-- One worker with one action that runs every minute. -/
def minutePlan : Plan Unit where
  croniter := everyMinute
  action _ := ⟨"* * * * *", true⟩
  actions _ := [cleanup]

/-- The action was last dispatched at time 0. -/
def minuteStored : String → Option Int := fun _ => some 0

/-- A cycle that starts at second 59 and comes to the action at second 61 serves minute 60 and
stores 59; the next cycle serves minute 60 once more. -/
theorem slow_cycle_repeats : ∃ s,
    Runs minutePlan (fun _ _ _ => True) (initial 59 minuteStored) s ∧
      served minutePlan cleanup s.dispatches = [60, 60] ∧
      ¬(served minutePlan cleanup s.dispatches).Pairwise (· < ·) := by
  have hstart : Step minutePlan (fun _ _ _ => True) (initial 59 minuteStored)
      ((initial 59 minuteStored).goto () (.waiting 59 [cleanup])) :=
    .startCycle_at minutePlan _ rfl rfl
  have htick : Step minutePlan (fun _ _ _ => True)
      ((initial 59 minuteStored).goto () (.waiting 59 [cleanup]))
      { (initial 59 minuteStored).goto () (.waiting 59 [cleanup]) with clock := 61 } :=
    .tick 61 (by decide +kernel)
  obtain ⟨s₁, hrun₁, hclock₁, hturn₁, hphase₁, hstored₁, hdispatches₁⟩ :=
    due_turn minutePlan (fun _ _ _ => True) (w := ())
      (s := { (initial 59 minuteStored).goto () (.waiting 59 [cleanup]) with clock := 61 })
      rfl rfl rfl (by decide +kernel) trivial
  have hend : Step minutePlan (fun _ _ _ => True) s₁ (s₁.goto () .idle) := .endCycle () hphase₁
  have hagain : Step minutePlan (fun _ _ _ => True) (s₁.goto () .idle)
      ((s₁.goto () .idle).goto () (.waiting 61 [cleanup])) :=
    .startCycle_at minutePlan _ rfl hclock₁
  have hpassed : (minutePlan.nextRun cleanup 0 : ℚ) ≤ s₁.clock := by
    rw [hclock₁]
    decide +kernel
  obtain ⟨-, s₂, hrun₂, hdispatches₂⟩ :=
    untimely_repeats minutePlan (fun _ _ _ => True) (w := ())
      (s := (s₁.goto () .idle).goto () (.waiting 61 [cleanup]))
      rfl hturn₁ hstored₁ (by decide) hpassed trivial
  have hserved : served minutePlan cleanup s₂.dispatches = [60, 60] := by
    rw [hdispatches₂]
    change served minutePlan cleanup (s₁.dispatches ++ _) = _
    rw [hdispatches₁]
    rfl
  have hrun : Runs minutePlan (fun _ _ _ => True) (initial 59 minuteStored) s₂ :=
    (((((Relation.ReflTransGen.single hstart).tail htick).trans hrun₁).tail hend).tail
      hagain).trans hrun₂
  refine ⟨s₂, hrun, hserved, ?_⟩
  rw [hserved]
  decide

/-- A cycle that starts at second 61. -/
theorem punctual_cycle_serves_once : ∃ s s',
    Runs minutePlan (Timely minutePlan) (initial 61 minuteStored) s ∧
      Runs minutePlan (Timely minutePlan) s s' ∧
      s'.dispatches ≠ [] ∧ (served minutePlan cleanup s'.dispatches).Pairwise (· < ·) := by
  have hstart : Step minutePlan (Timely minutePlan) (initial 61 minuteStored)
      ((initial 61 minuteStored).goto () (.waiting 61 [cleanup])) :=
    .startCycle_at minutePlan _ rfl rfl
  have htimely : Timely minutePlan cleanup (some 0) 61 := by
    intro l hl
    cases hl
    decide
  obtain ⟨s', hrun, -, -, -, -, hdispatches⟩ :=
    due_turn minutePlan (Timely minutePlan) (w := ())
      (s := (initial 61 minuteStored).goto () (.waiting 61 [cleanup]))
      rfl rfl rfl (by decide +kernel) htimely
  refine ⟨_, s', .single hstart, hrun, by simp [hdispatches], ?_⟩
  exact (occurrences_served_once 61 minuteStored (.single hstart) hrun).1 cleanup

end BeatCron

import Mathlib.Data.List.Count
import Mathlib.Tactic.SplitIfs
import Jararaca.BeatCron

/-!
# Cron occurrences where dispatches and stores fail

What the runs of many beat workers do to the occurrences of an action once the awaits of a turn may
raise, a publish may lose its confirmation and be tried again, the stored time may not get through,
and workers shut down. The turns themselves are those of the runs without failures, and the beat
lock is as exclusive as there: no lease of it ends while its holder has it.
-/
namespace BeatFailures

open BeatCron

/-- The workers that were told to shut down, those that wait for the lock since they looked, and the
publishes after which no time was stored: the confirmation or the store was lost. -/
structure FailingBeat (W : Type) where
  beat : Beat W
  stopping : W → Bool
  awaiting : W → Bool
  unrecorded : List Dispatch

variable {W : Type}

/-- What a worker has found where it goes on: no shutdown before a cycle, and none before it asked
for the lock. -/
def FailingBeat.Goes (s : FailingBeat W) (w : W) : Prop :=
  match s.beat.phase w with
  | .idle => s.stopping w = false
  | .waiting _ (_ :: _) => s.awaiting w = true
  | .waiting _ [] | .holding => True

section Steps

variable [DecidableEq W]

def FailingBeat.stop (s : FailingBeat W) (w : W) : FailingBeat W :=
  { s with stopping := Function.update s.stopping w true }

/-- The publish of a dispatch got through, and nothing is stored for it. -/
def FailingBeat.publishUnrecorded (s : FailingBeat W) (d : Dispatch) : FailingBeat W :=
  { s with
    beat := { s.beat with dispatches := s.beat.dispatches ++ [d] }
    unrecorded := s.unrecorded ++ [d] }

/-- Who has the lock does not wait for it. -/
def FailingBeat.advance (s : FailingBeat W) (t : Turn W) (stage : Stage) : FailingBeat W :=
  { s with beat := s.beat.advance t stage, awaiting := Function.update s.awaiting t.worker false }

def FailingBeat.await (s : FailingBeat W) (w : W) : FailingBeat W :=
  { s with awaiting := Function.update s.awaiting w true }

/-- The loops went on: a worker that has moved does not wait any more. -/
def FailingBeat.go (s : FailingBeat W) (b : Beat W) : FailingBeat W :=
  { s with beat := b, awaiting := fun w => s.awaiting w && decide (b.phase w = s.beat.phase w) }

/-- One step of one worker, of the clock, or a signal. -/
inductive Step (plan : Plan W) : FailingBeat W → FailingBeat W → Prop where
  | works {s : FailingBeat W} {b : Beat W} (hstep : BeatCron.Step plan (fun _ _ _ => True) s.beat b)
      (hgoes : ∀ w, b.phase w ≠ s.beat.phase w → s.Goes w) : Step plan s (s.go b)
  /-- `if self.shutdown_event.is_set(): break` in front of the lock -/
  | checks {s : FailingBeat W} (w : W) {now : Int} {id : String} {rest : List String}
      (here : s.beat.phase w = .waiting now (id :: rest)) (goes : s.stopping w = false) :
        Step plan s (s.await w)
  | signal {s : FailingBeat W} (w : W) : Step plan s (s.stop w)
  /-- "Error processing scheduled action": what is awaited before the dispatch raises. -/
  | raises {s : FailingBeat W} (t : Turn W) (here : s.beat.turn = some t)
      (stage : ∀ last, t.stage ≠ .dispatched last) : Step plan s (s.advance t .leaving)
  /-- An attempt of `_dispatch` raises, with or without having published. -/
  | attemptRaises {s : FailingBeat W} (t : Turn W) (here : s.beat.turn = some t) {last : Option Int}
      (stage : t.stage = .due last) (published : Bool) : Step plan s
        (if published then s.publishUnrecorded ⟨t.functionId, last, t.now⟩ else s)
  /-- The last attempt did: `shutdown_event.set()`. -/
  | givesUp {s : FailingBeat W} (t : Turn W) (here : s.beat.turn = some t) {last : Option Int}
      (stage : t.stage = .due last) : Step plan s ((s.advance t .leaving).stop t.worker)
  /-- `set_last_dispatch_time` raises. -/
  | storeFails {s : FailingBeat W} (t : Turn W) (here : s.beat.turn = some t) {last : Option Int}
      (stage : t.stage = .dispatched last) : Step plan s
        { s.advance t .leaving with unrecorded := s.unrecorded ++ [⟨t.functionId, last, t.now⟩] }

def Runs (plan : Plan W) : FailingBeat W → FailingBeat W → Prop :=
  Relation.ReflTransGen (Step plan)

end Steps

def start (clock : ℚ) (stored : String → Option Int) : FailingBeat W :=
  ⟨BeatCron.initial clock stored, fun _ => false, fun _ => false, []⟩

/-! ## What a dispatch is for -/

/-- The occurrence that a stored time calls for; none is the first dispatch of all. -/
def due (plan : Plan W) (id : String) (lastDispatchTime : Option Int) : Option Int :=
  lastDispatchTime.map (plan.nextRun id)

def serves (plan : Plan W) (id : String) (occurrence : Option Int) (d : Dispatch) : Bool :=
  decide (d.functionId = id) && decide (due plan id d.lastDispatchTime = occurrence)

/-- The cycle of the dispatch began before the occurrence. -/
def early (plan : Plan W) (id : String) (d : Dispatch) : Bool :=
  decide (d.functionId = id) && (due plan id d.lastDispatchTime).any fun occurrence =>
    decide (d.now < occurrence)

/-- The stored time has passed the occurrence. -/
def passed (stored occurrence : Option Int) : Bool :=
  match occurrence with
  | none => stored.isSome
  | some o => stored.any fun l => decide (o ≤ l)

variable {plan : Plan W} {b : Beat W} {s s' : FailingBeat W} {id : String} {k : Option Int}
  {d : Dispatch}

theorem serves_iff :
    serves plan id k d = true ↔ d.functionId = id ∧ due plan id d.lastDispatchTime = k := by
  simp [serves]

/-- A stored time has not passed what it calls for. -/
theorem passed_due (plan : Plan W) (id : String) (last : Option Int) :
    passed last (due plan id last) = false := by
  cases last with
  | none => rfl
  | some l =>
    have hafter := plan.croniter.after (plan.action id).cron l
    simpa [passed, due, Plan.nextRun] using hafter

/-- A dispatch that is not early stores a time that has passed all that the time before it has, and
its own occurrence. -/
theorem passed_store {last : Option Int} {now : Int}
    (hearly : early plan id ⟨id, last, now⟩ = false)
    (h : passed last k = true ∨ due plan id last = k) : passed (some now) k = true := by
  have hnow : ∀ l, last = some l → plan.nextRun id l ≤ now := by
    rintro l rfl
    simpa [early, due] using hearly
  obtain hpassed | rfl := h
  · cases k with
    | none => rfl
    | some o =>
      obtain ⟨l, hl, hle⟩ : ∃ l, last = some l ∧ o ≤ l := by
        cases last <;> simp_all [passed]
      have hafter := plan.croniter.after (plan.action id).cron l
      have hnext := hnow l hl
      unfold Plan.nextRun at hnext
      simp only [passed, Option.any_some, decide_eq_true_eq]
      omega
  · cases last with
    | none => rfl
    | some l => simpa [passed, due] using hnow l rfl

/-- The dispatch whose time is still to be stored. -/
def underWay (b : Beat W) : Option Dispatch :=
  b.turn.bind fun t => match t.stage with
    | .dispatched last => some ⟨t.functionId, last, t.now⟩
    | _ => none

theorem underWay_dispatched {t : Turn W} {last : Option Int} (hturn : b.turn = some t)
    (hstage : t.stage = .dispatched last) : underWay b = some ⟨t.functionId, last, t.now⟩ := by
  simp [underWay, hturn, hstage]

theorem underWay_none {t : Turn W} (hturn : b.turn = some t)
    (hstage : ∀ last, t.stage ≠ .dispatched last) :
    underWay b = none := by
  unfold underWay
  rw [hturn]
  cases hs : t.stage <;> simp_all

theorem underWay_advance (t : Turn W) (stage : Stage) (hstage : ∀ last, stage ≠ .dispatched last) :
    underWay (b.advance t stage) = none :=
  underWay_none (t := { t with stage := stage }) rfl hstage

/-- The occurrence is behind the stored time, or will be once the time under way is stored. -/
def settled (plan : Plan W) (id : String) (k stored : Option Int)
    (under : Option Dispatch) : Bool :=
  passed stored k || under.any (serves plan id k)

/-- The dispatches of an occurrence are paid for by the publishes that left no time, by the early
dispatches whose time is stored, and by the stored time itself. -/
structure Counted (plan : Plan W) (s : FailingBeat W) : Prop where
  fresh : ∀ t last, s.beat.turn = some t → t.stage.seen = some last →
    s.beat.stored t.functionId = last
  count : ∀ id k, s.beat.dispatches.countP (serves plan id k) + (underWay s.beat).toList.countP
    (early plan id) ≤
    s.unrecorded.countP (serves plan id k) + s.beat.dispatches.countP (early plan id) +
      (settled plan id k (s.beat.stored id) (underWay s.beat)).toNat

/-- Nothing is dispatched at the start. -/
theorem counted_start (clock : ℚ) (stored : String → Option Int) :
    Counted plan (start clock stored) where
  fresh := by simp [start, BeatCron.initial]
  count := by simp [start, BeatCron.initial, underWay]

/-- Who waits for the lock does not count. -/
theorem Counted.awaiting (h : Counted plan s) (awaiting : W → Bool) :
    Counted plan { s with awaiting := awaiting } :=
  ⟨h.fresh, h.count⟩

/-- A step without a dispatch before it or after it. -/
theorem Counted.quiet (h : Counted plan s) {b : Beat W} (hbefore : underWay s.beat = none)
    (hafter : underWay b = none)
    (hfresh : ∀ t last, b.turn = some t → t.stage.seen = some last →
      s.beat.stored t.functionId = last)
    (hstored : b.stored = s.beat.stored) (hdispatches : b.dispatches = s.beat.dispatches) :
    Counted plan { s with beat := b } := by
  refine ⟨fun t last ht hseen => (congrFun hstored _).trans (hfresh t last ht hseen),
    fun id k => ?_⟩
  have hcount := h.count id k
  rw [hbefore] at hcount
  rw [hafter, hstored, hdispatches]
  exact hcount

/-- A step that leaves the turn, the stored times and the dispatches. -/
theorem Counted.outside (h : Counted plan s) {b : Beat W} (hturn : b.turn = s.beat.turn)
    (hstored : b.stored = s.beat.stored) (hdispatches : b.dispatches = s.beat.dispatches) :
    Counted plan { s with beat := b } := by
  have hunder : underWay b = underWay s.beat := by rw [underWay, hturn, underWay]
  refine ⟨by rw [hturn, hstored]; exact h.fresh, fun id k => ?_⟩
  rw [hunder, hstored, hdispatches]
  exact h.count id k

theorem Counted.advanced (h : Counted plan s) {t : Turn W} {stage : Stage}
    (hturn : s.beat.turn = some t)
    (hold : ∀ last, t.stage ≠ .dispatched last) (hnew : ∀ last, stage ≠ .dispatched last)
    (hseen : ∀ last, stage.seen = some last → s.beat.stored t.functionId = last) :
    Counted plan { s with beat := s.beat.advance t stage } := by
  refine h.quiet (underWay_none hturn hold) (underWay_advance t stage hnew) ?_ rfl rfl
  intro t' last ht' hlast
  cases ht'
  exact hseen last hlast

/-- A publish without a stored time pays for itself. -/
theorem Counted.unrecorded (h : Counted plan s) (d : Dispatch) :
    Counted plan (s.publishUnrecorded d) := by
  refine ⟨h.fresh, fun id k => ?_⟩
  have hcount := h.count id k
  have hunder : underWay (s.publishUnrecorded d).beat = underWay s.beat := rfl
  rw [hunder]
  simp only [FailingBeat.publishUnrecorded, List.countP_append]
  omega

/-- A dispatch is paid for: its time is about to be stored. -/
theorem Counted.dispatching (h : Counted plan s) {t : Turn W} {last : Option Int}
    (hturn : s.beat.turn = some t)
    (hstage : t.stage = .due last) :
    Counted plan { s with beat := { s.beat.advance t (.dispatched last) with
      dispatches := s.beat.dispatches ++ [⟨t.functionId, last, t.now⟩] } } := by
  have hlast : s.beat.stored t.functionId = last :=
    h.fresh t last hturn (by simp [hstage, Stage.seen])
  refine ⟨?_, fun id k => ?_⟩
  · intro t' last' ht' hseen
    cases ht'
    cases hseen
    exact hlast
  · have hcount := h.count id k
    rw [underWay_none hturn (by simp [hstage])] at hcount
    rw [underWay_dispatched (t := { t with stage := .dispatched last }) rfl rfl]
    simp only [Option.toList_some, Option.toList_none, List.countP_nil, List.countP_append,
      List.countP_singleton,
      settled, Option.any_some, Option.any_none, Bool.or_false, Beat.advance] at hcount ⊢
    by_cases hserves : serves plan id k ⟨t.functionId, last, t.now⟩ = true
    · -- nothing has settled this occurrence before
      obtain ⟨rfl, rfl⟩ := serves_iff.mp hserves
      have hpassed : passed (s.beat.stored t.functionId) (due plan t.functionId last) = false :=
        hlast ▸ passed_due plan t.functionId _
      simp only [hserves, hpassed, Bool.or_true, Bool.toNat_true, Bool.toNat_false,
        if_true] at hcount ⊢
      omega
    · simp only [hserves, Bool.or_false, Bool.false_eq_true, if_false] at hcount ⊢
      omega

/-- Storing the time settles the occurrence. -/
theorem Counted.storing (h : Counted plan s) {t : Turn W} {last : Option Int}
    (hturn : s.beat.turn = some t)
    (hstage : t.stage = .dispatched last) :
    Counted plan { s with beat := { s.beat.advance t .leaving with
      stored := Function.update s.beat.stored t.functionId (some t.now) } } := by
  have hlast : s.beat.stored t.functionId = last :=
    h.fresh t last hturn (by simp [hstage, Stage.seen])
  refine ⟨?_, fun id k => ?_⟩
  · intro t' last' ht' hseen
    cases ht'
    cases hseen
  · have hcount := h.count id k
    rw [underWay_dispatched hturn hstage] at hcount
    rw [underWay_none (t := { t with stage := .leaving }) rfl (by simp)]
    simp only [Option.toList_some, Option.toList_none, List.countP_nil,
      List.countP_singleton, settled,
      Option.any_some, Option.any_none, Bool.or_false, Beat.advance] at hcount ⊢
    by_cases hid : t.functionId = id
    · subst hid
      rw [Function.update_self]
      cases hearly : early plan t.functionId ⟨t.functionId, last, t.now⟩ with
      | true =>
        have hle := Bool.toNat_le (passed (s.beat.stored t.functionId) k ||
          serves plan t.functionId k ⟨t.functionId, last, t.now⟩)
        rw [if_pos hearly] at hcount
        omega
      | false =>
        have hmono : (passed (s.beat.stored t.functionId) k ||
            serves plan t.functionId k ⟨t.functionId, last, t.now⟩).toNat ≤
              (passed (some t.now) k).toNat := by
          refine Bool.toNat_le_toNat (Bool.le_iff_imp.mpr fun hor => ?_)
          rw [Bool.or_eq_true, hlast] at hor
          exact passed_store hearly (hor.imp_right fun hserves => (serves_iff.mp hserves).2)
        omega
    · have hserves : serves plan id k ⟨t.functionId, last, t.now⟩ = false := by simp [serves, hid]
      have hkept : Function.update s.beat.stored t.functionId (some t.now) id = s.beat.stored id :=
        Function.update_of_ne (Ne.symm hid) _ _
      rw [hkept]
      rw [hserves, Bool.or_false] at hcount
      omega

/-- A store that fails leaves a publish without its time, which pays for the next one. -/
theorem Counted.storeFailing (h : Counted plan s) {t : Turn W} {last : Option Int}
    (hturn : s.beat.turn = some t)
    (hstage : t.stage = .dispatched last) :
    Counted plan { s with
      beat := s.beat.advance t .leaving
      unrecorded := s.unrecorded ++ [⟨t.functionId, last, t.now⟩] } := by
  refine ⟨?_, fun id k => ?_⟩
  · intro t' last' ht' hseen
    cases ht'
    cases hseen
  · have hcount := h.count id k
    rw [underWay_dispatched hturn hstage] at hcount
    rw [underWay_advance t .leaving (by simp)]
    simp only [Option.toList_some, Option.toList_none, List.countP_nil, List.countP_append,
      List.countP_singleton,
      settled, Option.any_some, Option.any_none, Bool.or_false, Beat.advance] at hcount ⊢
    cases hserves : serves plan id k ⟨t.functionId, last, t.now⟩ with
    | true =>
      simp only [hserves, Bool.or_true, Bool.toNat_true, if_true] at hcount ⊢
      omega
    | false =>
      simp only [hserves, Bool.or_false, Bool.false_eq_true, if_false] at hcount ⊢
      omega

variable [DecidableEq W]

/-- The steps of the beat that do not fail keep the account. -/
theorem counted_works (h : Counted plan s) {b : Beat W}
    (hstep : BeatCron.Step plan (fun _ _ _ => True) s.beat b) :
    Counted plan { s with beat := b } := by
  cases hstep with
  | tick time later => exact h.outside rfl rfl rfl
  | startCycle w here => exact h.outside rfl rfl rfl
  | endCycle w here => exact h.outside rfl rfl rfl
  | lockNotAcquired w here => exact h.outside rfl rfl rfl
  | acquire w here free =>
    refine h.quiet (by simp [underWay, free]) (by simp [underWay]) ?_ rfl rfl
    intro t last ht hseen
    cases ht
    cases hseen
  | getLastDispatchTime t here stage =>
    exact h.advanced here (by simp [stage]) (by simp) (by simp [Stage.seen])
  | notDue t here stage early =>
    exact h.advanced here (by simp [stage]) (by simp) (by simp [Stage.seen])
  | isDue t here stage passed =>
    have hfresh := h.fresh t _ here (by rw [stage]; rfl)
    exact h.advanced here (by simp [stage]) (by simp) (by simp [Stage.seen, hfresh])
  | overlapping t here stage count running =>
    exact h.advanced here (by simp [stage]) (by simp) (by simp [Stage.seen])
  | dispatchScheduledAction t here stage count free allowed => exact h.dispatching here stage
  | setLastDispatchTime t here stage => exact h.storing here stage
  | release t here stage =>
    refine h.quiet (underWay_none here (by simp [stage])) rfl ?_ rfl rfl
    intro t' last ht'
    cases ht'

/-- Every step keeps the account. -/
theorem counted_step (h : Counted plan s) (hstep : Step plan s s') : Counted plan s' := by
  cases hstep with
  | works hstep hgoes => exact (counted_works h hstep).awaiting _
  | checks w here goes => exact h.awaiting _
  | signal w => exact ⟨h.fresh, h.count⟩
  | raises t here stage => exact (h.advanced here stage (by simp) (by simp [Stage.seen])).awaiting _
  | attemptRaises t here stage published =>
    split
    · exact h.unrecorded _
    · exact h
  | givesUp t here stage =>
    have hleft : Counted plan (s.advance t .leaving) :=
      (h.advanced here (by simp [stage]) (by simp) (by simp [Stage.seen])).awaiting _
    exact ⟨hleft.fresh, hleft.count⟩
  | storeFails t here stage => exact (h.storeFailing here stage).awaiting _

/-- It holds in every state of a run. -/
theorem counted_run (h : Counted plan s) (hrun : Runs plan s s') : Counted plan s' := by
  induction hrun with
  | refl => exact h
  | tail _ hstep ih => exact counted_step ih hstep

/-- Whatever fails while the lock is exclusive: an occurrence is published once, and once more for
each of its publishes that left no time, and for each publish of the action in a cycle that had
begun before its occurrence. -/
theorem repeats_are_accounted (clock : ℚ) (stored : String → Option Int)
    (hrun : Runs plan (start clock stored) s)
    (id : String) (k : Option Int) :
    s.beat.dispatches.countP (serves plan id k) ≤
      1 + s.unrecorded.countP (serves plan id k) + s.beat.dispatches.countP (early plan id) := by
  have hcount := (counted_run (counted_start clock stored) hrun).count id k
  have hle := Bool.toNat_le (settled plan id k (s.beat.stored id) (underWay s.beat))
  omega

/-! ## Workers that shut down -/

/-- A worker was told to shut down, it does not wait for the lock, and all that is left of its turn
is the release. -/
structure Leaves (w : W) (s : FailingBeat W) : Prop where
  stopping : s.stopping w = true
  noWait : s.awaiting w = false
  release : ∀ t, s.beat.turn = some t → t.worker = w → t.stage = .leaving

omit [DecidableEq W] in
/-- A worker that was told to shut down leaves once the turn is at the release. -/
theorem leaves_at_release {w : W} (hstop : s.stopping w = true)
    (hwait : s.awaiting w = false) {t : Turn W}
    (hturn : s.beat.turn = some { t with stage := .leaving }) : Leaves w s := by
  refine ⟨hstop, hwait, fun t' ht' _ => ?_⟩
  obtain rfl : { t with stage := Stage.leaving } = t' := Option.some.inj (hturn.symm.trans ht')
  rfl

omit [DecidableEq W] in
/-- Where the turn goes is all that matters of a step of the loops. -/
theorem Leaves.go {w : W} (h : Leaves w s) {b : Beat W}
    (hrelease : ∀ t, b.turn = some t → t.worker = w → t.stage = .leaving) : Leaves w (s.go b) where
  stopping := h.stopping
  noWait := by simp [FailingBeat.go, h.noWait]
  release := hrelease

omit [DecidableEq W] in
/-- A turn that goes on was not one of a worker that leaves. -/
theorem Leaves.moved {w : W} (h : Leaves w s) {t : Turn W} (hturn : s.beat.turn = some t)
    (hstage : t.stage ≠ .leaving) {b : Beat W} {stage : Stage}
    (hturn' : b.turn = some { t with stage := stage }) :
    Leaves w (s.go b) := by
  refine h.go fun t' ht' hw => ?_
  obtain rfl : { t with stage := stage } = t' := Option.some.inj (hturn'.symm.trans ht')
  exact absurd (h.release t hturn hw) hstage

/-- A worker that leaves takes no step of the beat but its release. -/
theorem leaves_works {w : W} (h : Leaves w s) {b : Beat W}
    (hstep : BeatCron.Step plan (fun _ _ _ => True) s.beat b)
    (hgoes : ∀ w, b.phase w ≠ s.beat.phase w → s.Goes w) : Leaves w (s.go b) := by
  cases hstep with
  | tick time later => exact h.go h.release
  | startCycle w' here => exact h.go h.release
  | endCycle w' here => exact h.go h.release
  | lockNotAcquired w' here => exact h.go h.release
  | acquire w' here free =>
    -- the lock goes to a worker that waited for it
    have hwaited : s.awaiting w' = true := by
      have hgone := hgoes w' (by simp [Beat.goto, here])
      simpa [FailingBeat.Goes, here] using hgone
    refine h.go fun t ht hw => ?_
    cases ht
    obtain rfl : w' = w := hw
    exact absurd hwaited (by simp [h.noWait])
  | getLastDispatchTime t here stage => exact h.moved here (by simp [stage]) rfl
  | notDue t here stage early => exact h.moved here (by simp [stage]) rfl
  | isDue t here stage passed => exact h.moved here (by simp [stage]) rfl
  | overlapping t here stage count running => exact h.moved here (by simp [stage]) rfl
  | dispatchScheduledAction t here stage count free allowed =>
    exact h.moved here (by simp [stage]) rfl
  | setLastDispatchTime t here stage => exact h.moved here (by simp [stage]) rfl
  | release t here stage => exact h.go fun t' ht' => by cases ht'

/-- No other step changes that. -/
theorem leaves_step {w : W} (h : Leaves w s) (hstep : Step plan s s') : Leaves w s' := by
  have hstop : ∀ w', Function.update s.stopping w' true w = true := by
    intro w'
    rw [Function.update_apply, h.stopping, ite_self]
  have hwait : ∀ w', Function.update s.awaiting w' false w = false := by
    intro w'
    rw [Function.update_apply, h.noWait, ite_self]
  cases hstep with
  | works hstep hgoes => exact leaves_works h hstep hgoes
  | checks w' here goes =>
    -- who looks was not told to stop
    have hne : w ≠ w' := by
      rintro rfl
      exact absurd h.stopping (by simp [goes])
    exact ⟨h.stopping, (Function.update_of_ne hne _ _).trans h.noWait, h.release⟩
  | signal w' => exact ⟨hstop w', h.noWait, h.release⟩
  | raises t here stage => exact leaves_at_release h.stopping (hwait t.worker) (t := t) rfl
  | attemptRaises t here stage published =>
    split
    · exact ⟨h.stopping, h.noWait, h.release⟩
    · exact h
  | givesUp t here stage => exact leaves_at_release (hstop t.worker) (hwait t.worker) (t := t) rfl
  | storeFails t here stage => exact leaves_at_release h.stopping (hwait t.worker) (t := t) rfl

/-- It is so in every continuation. -/
theorem leaves_run {w : W} (h : Leaves w s) (hrun : Runs plan s s') : Leaves w s' := by
  induction hrun with
  | refl => exact h
  | tail _ hstep ih => exact leaves_step ih hstep

/-- A worker that gave up a dispatch comes to no other action, in this cycle or a later one: where
it has the lock, it lets go of it. -/
theorem failed_dispatch_is_last {t : Turn W} {last : Option Int} (here : s.beat.turn = some t)
    (stage : t.stage = .due last) :
    Step plan s ((s.advance t .leaving).stop t.worker) ∧
      ∀ s', Runs plan ((s.advance t .leaving).stop t.worker) s' →
        s'.stopping t.worker = true ∧
          ∀ t', s'.beat.turn = some t' → t'.worker = t.worker → t'.stage = .leaving := by
  have hleaves : Leaves t.worker ((s.advance t .leaving).stop t.worker) :=
    leaves_at_release (Function.update_self _ _ _) (Function.update_self _ _ _) (t := t) rfl
  refine ⟨.givesUp t here stage, fun s' hrun => ?_⟩
  have hleft := leaves_run hleaves hrun
  exact ⟨hleft.stopping, hleft.release⟩

/-! ## A store that fails -/

/-- A step moves one worker at most. -/
theorem one_moves {b b' : Beat W} (hstep : BeatCron.Step plan (fun _ _ _ => True) b b') :
    (∀ w, b'.phase w = b.phase w) ∨ ∃ w, ∀ w', w' ≠ w → b'.phase w' = b.phase w' := by
  have hgoto : ∀ (w : W) (p : Phase) (w' : W), w' ≠ w → (b.goto w p).phase w' = b.phase w' :=
    fun w p w' hne => Function.update_of_ne hne _ _
  cases hstep with
  | startCycle w | endCycle w | lockNotAcquired w | acquire w => exact .inr ⟨w, hgoto w _⟩
  | release t => exact .inr ⟨t.worker, hgoto t.worker _⟩
  | tick | getLastDispatchTime | notDue | isDue | overlapping | dispatchScheduledAction
  | setLastDispatchTime =>
    exact .inl fun _ => rfl

/-- Before a step its worker looks at the shutdown event. -/
theorem works_after_look (hgoes : ∀ w, s.stopping w = false)
    (hstep : BeatCron.Step plan (fun _ _ _ => True) s.beat b) :
    ∃ awaiting, Runs plan s { s with beat := b, awaiting := awaiting } := by
  obtain hsame | ⟨w, hothers⟩ := one_moves hstep
  · exact ⟨_, .single (.works hstep fun w hne => absurd (hsame w) hne)⟩
  · have hmover : ∀ w', b.phase w' ≠ s.beat.phase w' → w' = w :=
      fun w' hne => by_contra fun h => hne (hothers w' h)
    -- what lets the worker go on without a look
    have hdirect : s.Goes w → ∃ awaiting, Runs plan s { s with beat := b, awaiting := awaiting } :=
      fun hgoes => ⟨_, .single (.works hstep fun w' hne => hmover w' hne ▸ hgoes)⟩
    cases hphase : s.beat.phase w with
    | idle => exact hdirect (by simp [FailingBeat.Goes, hphase, hgoes w])
    | holding => exact hdirect (by simp [FailingBeat.Goes, hphase])
    | waiting now functionIds =>
      cases functionIds with
      | nil => exact hdirect (by simp [FailingBeat.Goes, hphase])
      | cons id rest =>
        have hlook : Runs plan s (s.await w) := .single (.checks w hphase (hgoes w))
        refine ⟨_, hlook.tail (.works (s := s.await w) hstep fun w' hne => ?_)⟩
        obtain rfl := hmover w' hne
        simp [FailingBeat.Goes, FailingBeat.await, hphase]

/-- A run without failures is a run. -/
theorem runs_of_works (hgoes : ∀ w, s.stopping w = false)
    (hrun : BeatCron.Runs plan (fun _ _ _ => True) s.beat b) :
    ∃ awaiting, Runs plan s { s with beat := b, awaiting := awaiting } := by
  induction hrun with
  | refl => exact ⟨s.awaiting, .refl⟩
  | @tail between after _ hstep ih =>
    obtain ⟨awaiting, hbefore⟩ := ih
    obtain ⟨awaiting', hlast⟩ :=
      works_after_look (s := { s with beat := between, awaiting := awaiting }) hgoes hstep
    exact ⟨awaiting', hbefore.trans hlast⟩

/-- Minute 60 is published by a cycle that cannot store its time, and by the next one. -/
theorem minute_is_repeated : ∃ s, Runs minutePlan (start 61 minuteStored) s ∧
    s.beat.dispatches.countP (serves minutePlan cleanup (some 60)) = 2 ∧
    s.unrecorded.countP (serves minutePlan cleanup (some 60)) = 1 ∧
    s.beat.dispatches.countP (early minutePlan cleanup) = 0 ∧
    s.beat.dispatches.countP (serves minutePlan cleanup (some 60)) ≤
      1 + s.unrecorded.countP (serves minutePlan cleanup (some 60)) +
        s.beat.dispatches.countP (early minutePlan cleanup) := by
  have hdue : (minutePlan.nextRun cleanup 0 : ℚ) ≤ 61 := by decide +kernel
  have hnever : ∀ w : Unit, (start 61 minuteStored).stopping w = false := fun _ => rfl
  have hbegun : BeatCron.Step minutePlan (fun _ _ _ => True) (BeatCron.initial 61 minuteStored)
      ((BeatCron.initial 61 minuteStored).goto () (.waiting 61 [cleanup])) :=
        .startCycle_at minutePlan _ rfl rfl
  have hpassed : ∀ l, minuteStored cleanup = some l → (minutePlan.nextRun cleanup l : ℚ) ≤ 61 := by
    intro l hl
    cases hl
    exact hdue
  have hdispatched := ((((Relation.ReflTransGen.single hbegun).tail (.acquire () rfl rfl)).tail
    (.getLastDispatchTime ⟨(), 61, cleanup, [], .entered⟩ rfl rfl)).tail
    (.isDue ⟨(), 61, cleanup, [], .read (some 0)⟩ rfl rfl hpassed)).tail
    (.dispatchScheduledAction ⟨(), 61, cleanup, [], .due (some 0)⟩ rfl rfl 0 (.inr rfl) trivial)
  obtain ⟨awaiting₁, hfirst⟩ := runs_of_works (s := start 61 minuteStored) hnever hdispatched
  have hfailed := hfirst.tail (.storeFails ⟨(), 61, cleanup, [], .dispatched (some 0)⟩ rfl rfl)
  obtain ⟨s₁, hrun₁, hstopping, hclock, hturn, hstored, hdispatches₁, hunrecorded⟩ :
      ∃ s₁, Runs minutePlan (start 61 minuteStored) s₁ ∧ (∀ w, s₁.stopping w = false) ∧
        s₁.beat.clock = 61 ∧
        s₁.beat.turn = some ⟨(), 61, cleanup, [], .leaving⟩ ∧ s₁.beat.stored cleanup = some 0 ∧
        s₁.beat.dispatches = [⟨cleanup, some 0, 61⟩] ∧ s₁.unrecorded = [⟨cleanup, some 0, 61⟩] :=
    ⟨_, hfailed, fun _ => rfl, rfl, rfl, rfl, rfl, rfl⟩
  -- the next cycle still finds the time of before
  have hreleased : BeatCron.Runs minutePlan (fun _ _ _ => True) s₁.beat _ :=
    .single (.release _ hturn rfl)
  have hended := hreleased.tail (.endCycle () (show _ = Phase.waiting 61 [] from rfl))
  have hagain := hended.tail (.startCycle_at minutePlan _ (w := ()) rfl hclock)
  obtain ⟨b₁, hcycle, hclock₁, hturn₁, hphase₁, hstored₁, hsame⟩ :
      ∃ b₁, BeatCron.Runs minutePlan (fun _ _ _ => True) s₁.beat b₁ ∧ b₁.clock = 61 ∧
        b₁.turn = none ∧
        b₁.phase () = .waiting 61 [cleanup] ∧ b₁.stored cleanup = some 0 ∧
        b₁.dispatches = s₁.beat.dispatches :=
    ⟨_, hagain, hclock, rfl, rfl, hstored, rfl⟩
  obtain ⟨b, hturn₂, -, -, -, -, hdispatches₂⟩ :=
    due_turn minutePlan (fun _ _ _ => True) hphase₁ hturn₁ hstored₁ (hclock₁ ▸ hdue) trivial
  obtain ⟨awaiting₂, hsecond⟩ := runs_of_works hstopping (hcycle.trans hturn₂)
  have hrun := hrun₁.trans hsecond
  have hdispatches : b.dispatches = [⟨cleanup, some 0, 61⟩, ⟨cleanup, some 0, 61⟩] := by
    rw [hdispatches₂, hsame, hdispatches₁]
    rfl
  refine ⟨_, hrun, ?_, ?_, ?_, repeats_are_accounted 61 minuteStored hrun cleanup (some 60)⟩
  · simp only [hdispatches]
    decide
  · simp only [hunrecorded]
    decide
  · simp only [hdispatches]
    decide

/-- The turn of the one action at its dispatch. -/
def atDispatch : FailingBeat Unit :=
  { start 61 minuteStored with
    beat := { (BeatCron.initial 61 minuteStored).goto () .holding with
      turn := some ⟨(), 61, cleanup, [], .due (some 0)⟩ } }

/-- A worker whose dispatch has failed is gone. -/
theorem given_up_for_good :
    Step minutePlan atDispatch
      ((atDispatch.advance ⟨(), 61, cleanup, [], .due (some 0)⟩ .leaving).stop ()) ∧
      ∀ s', Runs minutePlan
        ((atDispatch.advance ⟨(), 61, cleanup, [], .due (some 0)⟩ .leaving).stop ()) s' →
        s'.stopping () = true ∧ ∀ t', s'.beat.turn = some t' → t'.worker = () →
          t'.stage = .leaving :=
  failed_dispatch_is_last (s := atDispatch) rfl rfl

end BeatFailures

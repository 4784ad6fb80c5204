import Mathlib.Logic.Function.Basic
import Mathlib.Logic.Relation
import Mathlib.Algebra.Order.Field.Basic
import Mathlib.Data.Rat.Defs

/-!
# The reload watcher

`run_with_reload_watcher` of cli.py: the thread of the observer, which replaces the process at each
change, and the main thread, which stops it at an interrupt. A process may end at any time by
itself, a terminated one may take any time, and a killed one ends.
-/
namespace ReloadWatcher

structure FileSystemEvent where
  srcPath : String
  isDirectory : Bool

/-- Where `on_modified` stands. -/
inductive Handler where
  | idle
  | checking
  | joining
  | killing
  | starting
  deriving DecidableEq, Repr

/-- Where the main thread stands, from the interrupt on. -/
inductive Main where
  | watching
  | checking
  | joining
  | killing
  | joiningObserver
  | stopped
  deriving DecidableEq, Repr

/-- The processes are numbered as they are started; `process` is the first. `signalled` are those
that were terminated or killed. -/
structure Reload where
  clock : ℚ
  lastModifiedTime : ℚ
  started : Nat := 1
  alive : Nat → Bool := fun n => decide (n = 0)
  signalled : Nat → Bool := fun _ => false
  activeProcess : Nat := 0
  observing : Bool := true
  handler : Handler := .idle
  main : Main := .watching

def debounceSeconds : ℚ := 1

def start (time : ℚ) : Reload := { clock := time, lastModifiedTime := time }

/-- A change that `on_modified` restarts for. -/
def Reload.restartsFor (s : Reload) (event : FileSystemEvent) : Prop :=
  event.isDirectory = false ∧ event.srcPath.endsWith ".py" = true ∧
    debounceSeconds ≤ s.clock - s.lastModifiedTime

def Reload.signal (s : Reload) (n : Nat) : Reload :=
  { s with signalled := Function.update s.signalled n true }

inductive Step : Reload → Reload → Prop where
  | tick {s} (time : ℚ) (later : s.clock ≤ time) : Step s { s with clock := time }
  | ends {s} (n : Nat) : Step s { s with alive := Function.update s.alive n false }
  -- the other events leave everything as it is
  | modified {s} (event : FileSystemEvent) (here : s.handler = .idle)
      (observing : s.observing = true)
      (restarts : s.restartsFor event) :
        Step s { s with lastModifiedTime := s.clock, handler := .checking }
  | terminate {s} (here : s.handler = .checking) (alive : s.alive s.activeProcess = true) :
      Step s { s.signal s.activeProcess with handler := .joining }
  | absent {s} (here : s.handler = .checking) (gone : s.alive s.activeProcess = false) :
      Step s { s with handler := .starting }
  -- the join returns, or its time is over
  | kill {s} (here : s.handler = .joining) (alive : s.alive s.activeProcess = true) :
      Step s { s.signal s.activeProcess with handler := .killing }
  | joined {s} (here : s.handler = .joining) (gone : s.alive s.activeProcess = false) :
      Step s { s with handler := .starting }
  | killed {s} (here : s.handler = .killing) (gone : s.alive s.activeProcess = false) :
      Step s { s with handler := .starting }
  | restart {s} (here : s.handler = .starting) : Step s
      { s with
        started := s.started + 1, activeProcess := s.started
        alive := Function.update s.alive s.started true, handler := .idle }
  | interrupt {s} (here : s.main = .watching) :
      Step s { s with observing := false, main := .checking }
  | stopProcess {s} (here : s.main = .checking) (alive : s.alive 0 = true) :
      Step s { s.signal 0 with main := .joining }
  | processGone {s} (here : s.main = .checking) (gone : s.alive 0 = false) :
      Step s { s with main := .joiningObserver }
  | killProcess {s} (here : s.main = .joining) (alive : s.alive 0 = true) :
      Step s { s.signal 0 with main := .killing }
  | processJoined {s} (here : s.main = .joining) (gone : s.alive 0 = false) :
      Step s { s with main := .joiningObserver }
  | processKilled {s} (here : s.main = .killing) (gone : s.alive 0 = false) :
      Step s { s with main := .joiningObserver }
  | observerJoined {s} (here : s.main = .joiningObserver) (idle : s.handler = .idle) :
      Step s { s with main := .stopped }

def Runs : Reload → Reload → Prop := Relation.ReflTransGen Step

def Reachable (s : Reload) : Prop := ∃ time, Runs (start time) s

/-! ## What the two threads keep -/

/-- The handler has signalled the active process, or may have. -/
def Handler.replacing : Handler → Bool
  | .idle | .checking => false
  | _ => true

/-- The main thread is past the first process. -/
def Main.isPast : Main → Bool
  | .joiningObserver | .stopped => true
  | _ => false

structure Inv (s : Reload) : Prop where
  active : s.activeProcess < s.started
  one : ∀ n, s.alive n = true → n = s.activeProcess
  none : s.handler = .starting → s.alive s.activeProcess = false
  old : ∀ n, s.signalled n = true → n < s.started
  fresh : s.handler.replacing = false → s.activeProcess ≠ 0 → s.signalled s.activeProcess = false
  past : s.main.isPast = true → s.alive 0 = false
  ended : s.main = .stopped → s.handler = .idle
  closed : s.main ≠ .watching → s.observing = false

variable {s s' : Reload}

/-- The invariant holds at the start. -/
theorem inv_start (time : ℚ) : Inv (start time) := by
  constructor <;> simp [start, Handler.replacing, Main.isPast]

/-- A process ends. -/
theorem Inv.ends (h : Inv s) (n : Nat) :
    Inv { s with alive := Function.update s.alive n false } := by
  have hless : ∀ m, Function.update s.alive n false m = true → s.alive m = true := by
    intro m hm
    rw [Function.update_apply] at hm
    split at hm
    · cases hm
    · exact hm
  have hgone : ∀ m, s.alive m = false → Function.update s.alive n false m = false := by
    intro m hm
    rw [Function.update_apply, hm, ite_self]
  exact ⟨h.active, fun m hm => h.one m (hless m hm), fun hs => hgone _ (h.none hs), h.old, h.fresh,
    fun hp => hgone 0 (h.past hp), h.ended, h.closed⟩

/-- The handler signals the active process. -/
theorem Inv.signal (h : Inv s) {handler : Handler} (hreplacing : handler.replacing = true)
    (hstarting : handler ≠ .starting) (hidle : s.handler ≠ .idle) :
    Inv { s.signal s.activeProcess with handler := handler } := by
  refine ⟨h.active, h.one, fun hs => absurd hs hstarting, ?_, ?_, h.past,
    fun hs => absurd (h.ended hs) hidle, h.closed⟩
  · intro n hn
    by_cases he : n = s.activeProcess
    · exact he ▸ h.active
    · exact h.old n (by simpa [Reload.signal, he] using hn)
  · intro hr
    simp [hreplacing] at hr

/-- The active process is gone, and a new one may start. -/
theorem Inv.clear (h : Inv s) (hgone : s.alive s.activeProcess = false)
    (hidle : s.handler ≠ .idle) :
    Inv { s with handler := .starting } :=
  ⟨h.active, h.one, fun _ => hgone, h.old, fun hr => by simp [Handler.replacing] at hr, h.past,
    fun hs => absurd (h.ended hs) hidle, h.closed⟩

/-- A restart makes the new process the only one. -/
theorem Inv.restart (h : Inv s) (here : s.handler = .starting) :
    Inv { s with
      started := s.started + 1, activeProcess := s.started
      alive := Function.update s.alive s.started true, handler := .idle } := by
  have hnone : ∀ n, s.alive n = false := by
    intro n
    rw [Bool.eq_false_iff]
    intro hn
    rw [h.one n hn, h.none here] at hn
    cases hn
  have hpos : s.started ≠ 0 := Nat.ne_of_gt (Nat.zero_lt_of_lt h.active)
  refine ⟨Nat.lt_succ_self _, ?_, by simp, fun n hn => Nat.lt_succ_of_lt (h.old n hn), ?_, ?_,
    fun _ => rfl, h.closed⟩
  · intro n hn
    by_contra hne
    simp [Function.update_of_ne hne, hnone n] at hn
  · intro _ _
    rw [Bool.eq_false_iff]
    exact fun hs => absurd (h.old _ hs) (lt_irrefl _)
  · intro hp
    simpa [Function.update_of_ne hpos.symm] using h.past hp

/-- The main thread signals the first process. -/
theorem Inv.stop (h : Inv s) {main : Main} (hmain : main.isPast = false)
    (hwatching : s.main ≠ .watching) :
    Inv { s.signal 0 with main := main } := by
  refine ⟨h.active, h.one, h.none, ?_, ?_, by simp [hmain], ?_, fun _ => h.closed hwatching⟩
  · intro n hn
    by_cases he : n = 0
    · exact he ▸ Nat.zero_lt_of_lt h.active
    · exact h.old n (by simpa [Reload.signal, he] using hn)
  · intro hr (hne : s.activeProcess ≠ 0)
    simpa [Reload.signal, Function.update_of_ne hne] using h.fresh hr hne
  · rintro rfl
    simp [Main.isPast] at hmain

theorem Inv.pass (h : Inv s) (hgone : s.alive 0 = false) (hwatching : s.main ≠ .watching) :
    Inv { s with main := .joiningObserver } :=
  ⟨h.active, h.one, h.none, h.old, h.fresh, fun _ => hgone, by simp, fun _ => h.closed hwatching⟩

/-- Every step does. -/
theorem inv_step (h : Inv s) (hstep : Step s s') : Inv s' := by
  cases hstep with
  | tick time later => exact ⟨h.active, h.one, h.none, h.old, h.fresh, h.past, h.ended, h.closed⟩
  | ends n => exact h.ends n
  | modified event here observing restarts =>
    refine ⟨h.active, h.one, by simp, h.old, fun _ => h.fresh (by simp [here, Handler.replacing]),
      h.past, ?_, h.closed⟩
    intro (hs : s.main = .stopped)
    simp [h.closed (by simp [hs])] at observing
  | terminate here alive => exact h.signal rfl (by simp) (by simp [here])
  | absent here gone => exact h.clear gone (by simp [here])
  | kill here alive => exact h.signal rfl (by simp) (by simp [here])
  | joined here gone => exact h.clear gone (by simp [here])
  | killed here gone => exact h.clear gone (by simp [here])
  | restart here => exact h.restart here
  | interrupt here =>
    exact ⟨h.active, h.one, h.none, h.old, h.fresh, by simp [Main.isPast], by simp, fun _ => rfl⟩
  | stopProcess here alive => exact h.stop rfl (by simp [here])
  | processGone here gone => exact h.pass gone (by simp [here])
  | killProcess here alive => exact h.stop rfl (by simp [here])
  | processJoined here gone => exact h.pass gone (by simp [here])
  | processKilled here gone => exact h.pass gone (by simp [here])
  | observerJoined here idle =>
    exact ⟨h.active, h.one, h.none, h.old, h.fresh, fun _ => h.past (by simp [here, Main.isPast]),
      fun _ => idle,
      fun _ => h.closed (by simp [here])⟩

/-- So does every run. -/
theorem inv_run (h : Inv s) (hrun : Runs s s') : Inv s' := by
  induction hrun with
  | refl => exact h
  | tail _ hstep ih => exact inv_step ih hstep

/-- An interrupt after a restart goes by the process that runs. -/
theorem interrupt_misses (hmain : s.main = .watching) (hidle : s.handler = .idle)
    (hgone : s.alive 0 = false) :
    Runs s { s with observing := false, main := .stopped } := by
  have hinterrupt : Step s { s with observing := false, main := .checking } := .interrupt hmain
  have hpast : Step { s with observing := false, main := .checking }
      { s with observing := false, main := .joiningObserver } := .processGone rfl hgone
  have hjoined : Step { s with observing := false, main := .joiningObserver }
      { s with observing := false, main := .stopped } := .observerJoined rfl hidle
  exact ((Relation.ReflTransGen.single hinterrupt).tail hpast).tail hjoined

/-- At most one process is alive. When the reload mode has stopped, it is not the first, and nobody
has asked it to end: a process that a change started is left running, and any that runs at an
interrupt can be. -/
theorem interrupt_leaves_restarted (h : Reachable s) :
    (∀ m n, s.alive m = true → s.alive n = true → m = n) ∧
      (s.main = .stopped → ∀ n, s.alive n = true → n ≠ 0 ∧ s.signalled n = false) ∧
      ∀ n, n ≠ 0 → s.alive n = true → s.main = .watching → s.handler = .idle →
        ∃ t, Runs s t ∧ t.main = .stopped ∧ t.alive n = true := by
  obtain ⟨time, hrun⟩ := h
  have hinv := inv_run (inv_start time) hrun
  refine ⟨fun m n hm hn => (hinv.one m hm).trans (hinv.one n hn).symm, ?_, ?_⟩
  · intro hstopped n hn
    have hne : n ≠ 0 := by
      rintro rfl
      simp [hinv.past (by simp [hstopped, Main.isPast])] at hn
    obtain rfl := hinv.one n hn
    exact ⟨hne, hinv.fresh (by simp [hinv.ended hstopped, Handler.replacing]) hne⟩
  · intro n hne hn hmain hidle
    have hgone : s.alive 0 = false := by
      rw [Bool.eq_false_iff]
      exact fun h0 => hne ((hinv.one n hn).trans (hinv.one 0 h0).symm)
    exact ⟨_, interrupt_misses hmain hidle hgone, rfl, hn⟩

/-- A change is handled, then an interrupt. -/
theorem second_process_is_left : ∃ t, Runs (start 0) t ∧ t.main = .stopped ∧ t.alive 1 = true := by
  have htick : Step (start 0) { start 0 with clock := 1 } := .tick 1 (by simp [start])
  have hmodified : Step { start 0 with clock := 1 }
      { start 0 with clock := 1, lastModifiedTime := 1, handler := .checking } :=
    .modified ⟨"src/app.py", false⟩ rfl rfl ⟨rfl, by decide +kernel,
      by simp [debounceSeconds, start]⟩
  have hrestarted :=
    ((((((Relation.ReflTransGen.single htick).tail hmodified).tail (.terminate rfl rfl)).tail
    (.ends 0)).tail (.joined rfl rfl)).tail (.restart rfl))
  obtain ⟨t, hrun, hstopped, halive⟩ :=
    (interrupt_leaves_restarted ⟨0, hrestarted⟩).2.2 1 one_ne_zero rfl rfl rfl
  exact ⟨t, hrestarted.trans hrun, hstopped, halive⟩

end ReloadWatcher

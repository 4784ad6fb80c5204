import Mathlib.Data.List.Basic
import Mathlib.Tactic.Common

/-!
# Requests whose client went away

The guard and the marker of client_cancellation.py, with the task of one request and its
watcher. Everything between two awaits is one step. What `is_disconnected` answers is left
open, since the server says so also at the normal end of a cycle. The guard and the marker
use one scope key.
-/
namespace ClientCancellation

inductive MissingMarkerPolicy where
  | raise
  | warn
  deriving DecidableEq, Repr

/-- The arguments of `client_cancellation_guard_for`; `methods` is none for every method. -/
structure Config where
  methods : Option (List String) := none
  onMissingMarker : MissingMarkerPolicy := .raise

inductive Entry where
  | guarded
  | unguarded
  | runtimeError
  deriving DecidableEq, Repr

/-- The part of `guard` before its `try`: the method of the request, or none without a
request, and what the scope has under the key. -/
def entry (config : Config) (method : Option String) (scope : Option Bool) : Entry :=
  match method with
  | none => .unguarded
  | some method =>
    if config.methods.any fun methods => method.toUpper ∉ methods.map String.toUpper then .unguarded
    else match scope with
      | some _ => .guarded
      | none => match config.onMissingMarker with
        | .raise => .runtimeError
        | .warn => .unguarded

/-- How the body of the guard, or the guard, ends. `disconnected` is the exception of the
guard's factory. -/
inductive Outcome where
  | returned
  | raised
  | cancelledError
  | disconnected
  deriving DecidableEq, Repr

/-- Where the guard's generator stands: at a `yield` with or without a watcher, or exited. -/
inductive GuardPc where
  | outside
  | unguarded
  | yielded
  | refused
  | left (body outcome : Outcome)
  deriving DecidableEq, Repr

/-- Where `watch` stands: before its first step, at `is_disconnected`, at `sleep`, or done. -/
inductive WatcherPc where
  | absent
  | created
  | polling
  | sleeping
  | done
  deriving DecidableEq, Repr

/-- Where `http.response.start` is: in the marker, past the write to the scope, or out. -/
inductive Response where
  | notStarted
  | marked
  | sent
  deriving DecidableEq, Repr

/-- One request. `cancelling` is the count of its task, `inner` the requests that scopes
inside the body made and have not taken back. -/
structure Exchange where
  scope : Option Bool
  response : Response := .notStarted
  guard : GuardPc := .outside
  watcher : WatcherPc := .absent
  watcherCancelled : Bool := false
  disconnected : Bool := false
  cancelling : Nat := 0
  inner : Nat := 0

namespace Exchange

/-- The request comes in, through the marker if that is installed. -/
def arrive (marker : Bool) : Exchange := { scope := if marker then some false else none }

def enter (config : Config) (method : Option String) (s : Exchange) : Exchange :=
  match entry config method s.scope with
  | .unguarded => { s with guard := .unguarded }
  | .runtimeError => { s with guard := .refused }
  | .guarded => { s with guard := .yielded, watcher := .created }

/-- `send_wrapper` up to its await. -/
def mark (s : Exchange) : Exchange :=
  { s with response := .marked, scope := s.scope.map fun _ => true }

def uncancel (s : Exchange) : Exchange := { s with cancelling := s.cancelling - 1 }

/-- The body has ended: the `except` and `finally` of the guard. -/
def leave (s : Exchange) (body : Outcome) : Exchange :=
  if body = .cancelledError ∧ s.disconnected = true then
    { s.uncancel with guard := .left body .disconnected, watcherCancelled := true }
  else { s with guard := .left body body, watcherCancelled := true }

end Exchange

/-- `cancels` is the call of `task.cancel` in `watch`; `reaches` is a request from elsewhere
while the body runs, `early` one before that. -/
inductive Act where
  | cancels
  | reaches
  | early
  | other
  deriving DecidableEq

variable (config : Config) (method : Option String)

inductive Step : Act → Exchange → Exchange → Prop
  | enters {s} (h : s.guard = .outside) : Step .other s (s.enter config method)
  | marks {s} (h : s.response = .notStarted) : Step .other s s.mark
  | sends {s} (h : s.response = .marked) : Step .other s { s with response := .sent }
  | begins {s} (h : s.watcher = .created ∨ s.watcher = .sleeping)
      (hruns : s.watcherCancelled = false) :
      Step .other s { s with watcher := .polling }
  | sleeps {s} (h : s.watcher = .polling) (hruns : s.watcherCancelled = false) :
      Step .other s { s with watcher := .sleeping }
  | fails {s} (h : s.watcher = .polling) (hruns : s.watcherCancelled = false) :
      Step .other s { s with watcher := .done }
  -- the client is gone, or the response has started and the cycle is over
  | passes {s} (h : s.watcher = .polling) (hruns : s.watcherCancelled = false)
      (hscope : s.scope = some true) :
      Step .other s { s with watcher := .done }
  | cancels {s} (h : s.watcher = .polling) (hruns : s.watcherCancelled = false)
      (hscope : s.scope ≠ some true) :
      Step .cancels s { s with
        watcher := .done, disconnected := true, cancelling := s.cancelling + 1 }
  | reaches {s} (h : s.guard = .yielded ∨ s.guard = .unguarded) :
      Step .reaches s { s with cancelling := s.cancelling + 1 }
  | early {s} (h : s.guard = .outside) : Step .early s { s with cancelling := s.cancelling + 1 }
  -- a timeout or a task group inside the body cancels it, and takes that back when it ends
  | scopeCancels {s} (h : s.guard = .yielded ∨ s.guard = .unguarded) :
      Step .other s { s with cancelling := s.cancelling + 1, inner := s.inner + 1 }
  | scopeEnds {s} (h : 0 < s.inner) : Step .other s { s.uncancel with inner := s.inner - 1 }
  | leaves {s} (body : Outcome) (h : s.guard = .yielded) (hinner : s.inner = 0) :
      Step .other s (s.leave body)
  | returns {s} (body : Outcome) (h : s.guard = .unguarded) (hinner : s.inner = 0) :
      Step .other s { s with guard := .left body body }

inductive Run (marker : Bool) : List Act → Exchange → Prop
  | start : Run marker [] (.arrive marker)
  | tail {acts s a t} (hrun : Run marker acts s) (hstep : Step config method a s t) :
      Run marker (acts ++ [a]) t

/-- The requests to cancel that came from elsewhere. -/
def external (acts : List Act) : Nat := acts.count .reaches + acts.count .early

/-- What the task counts beyond the requests from elsewhere and from inside. -/
def Exchange.own (s : Exchange) : Nat :=
  match s.guard with
  | .left .cancelledError .disconnected => 0
  | _ => s.disconnected.toNat

structure Kept (acts : List Act) (s : Exchange) : Prop where
  count : s.cancelling = external acts + s.inner + s.own
  calls : acts.count .cancels = s.disconnected.toNat
  watching : s.watcher = .created ∨ s.watcher = .polling ∨ s.watcher = .sleeping →
    s.watcherCancelled = false →
    s.guard = .yielded ∧ s.disconnected = false
  marker : s.watcher ≠ .absent → s.scope ≠ none
  started : s.response ≠ .notStarted → s.scope = none ∨ s.scope = some true
  guarded : s.disconnected = true →
    s.guard = .yielded ∨ ∃ body outcome, s.guard = .left body outcome
  left : ∀ body outcome, s.guard = .left body outcome → s.inner = 0 ∧
    ((body = .cancelledError ∧ s.disconnected = true ∧ outcome = .disconnected) ∨
      (¬ (body = .cancelledError ∧ s.disconnected = true) ∧ outcome = body))

variable {config method} {acts : List Act} {s t : Exchange} {a : Act}

@[simp] theorem external_other : external (acts ++ [.other]) = external acts := by simp [external]

@[simp] theorem external_cancels :
    external (acts ++ [.cancels]) = external acts := by simp [external]

@[simp] theorem external_reaches : external (acts ++ [.reaches]) = external acts + 1 := by
  simp [external]
  omega

@[simp] theorem external_early : external (acts ++ [.early]) = external acts + 1 := by
  simp [external]
  omega

theorem calls_append (h : a ≠ .cancels) : (acts ++ [a]).count .cancels = acts.count .cancels := by
  rw [List.count_append, List.count_singleton, if_neg (by simpa using h), Nat.add_zero]

theorem own_eq (h : ∀ body outcome, s.guard ≠ .left body outcome) :
    s.own = s.disconnected.toNat := by
  unfold Exchange.own
  split
  · rename_i hleft
    exact absurd hleft (h _ _)
  · rfl

/-- Where the outcome of the body passes, a disconnection stays counted. -/
theorem own_passed {body : Outcome} (h : s.guard = .left body body) :
    s.own = s.disconnected.toNat := by
  unfold Exchange.own
  split
  · rename_i hleft
    rw [h] at hleft
    cases hleft
  · rfl

theorem kept_start (marker : Bool) : Kept [] (.arrive marker) where
  count := rfl
  calls := rfl
  watching := by simp [Exchange.arrive]
  marker h := absurd rfl h
  started h := absurd rfl h
  guarded h := by cases h
  left body outcome h := by cases h

theorem scope_of_guarded {scope : Option Bool} (h : entry config method scope = .guarded) :
    scope ≠ none := by
  rintro rfl
  unfold entry at h
  split at h
  · cases h
  · split at h
    · cases h
    · cases hpolicy : config.onMissingMarker with
      | raise => simp [hpolicy] at h
      | warn => simp [hpolicy] at h

/-- A generator that is not at the `yield` of its `try` has no watcher. -/
theorem Kept.calm (h : Kept acts s) (hguard : s.guard = .outside ∨ s.guard = .unguarded) :
    s.disconnected = false ∧
      ((s.watcher = .created ∨ s.watcher = .polling ∨ s.watcher = .sleeping) →
        s.watcherCancelled ≠ false) := by
  constructor
  · cases hd : s.disconnected with
    | false => rfl
    | true =>
      obtain hyielded | ⟨body, outcome, hleft⟩ := h.guarded hd
      · simp [hyielded] at hguard
      · simp [hleft] at hguard
  · intro hwatcher hruns
    simp [(h.watching hwatcher hruns).1] at hguard

/-- Entering keeps the invariant: the guard has cancelled nothing yet. -/
theorem Kept.enter (h : Kept acts s) (hguard : s.guard = .outside) :
    Kept (acts ++ [.other]) (s.enter config method) := by
  obtain ⟨hcalm, hnone⟩ := h.calm (.inl hguard)
  have hcount : s.cancelling = external acts + s.inner + s.disconnected.toNat := by
    rw [h.count, own_eq (by simp [hguard])]
  have hcalls : (acts ++ [Act.other]).count .cancels = s.disconnected.toNat :=
    (calls_append (by decide)).trans h.calls
  unfold Exchange.enter
  split
  · exact ⟨by simpa [Exchange.own] using hcount, hcalls,
      fun hwatcher hruns => absurd hruns (hnone hwatcher),
      h.marker, h.started, by simp [hcalm], by simp⟩
  · exact ⟨by simpa [Exchange.own] using hcount, hcalls,
      fun hwatcher hruns => absurd hruns (hnone hwatcher),
      h.marker, h.started, by simp [hcalm], by simp⟩
  · rename_i hentry
    exact ⟨by simpa [Exchange.own] using hcount, hcalls, fun _ _ => ⟨rfl, hcalm⟩,
      fun _ => scope_of_guarded hentry, h.started, fun _ => .inl rfl, by simp⟩

theorem Kept.mark (h : Kept acts s) : Kept (acts ++ [.other]) s.mark := by
  refine ⟨?_, (calls_append (by decide)).trans h.calls, h.watching, ?_, ?_, h.guarded, h.left⟩
  · rw [external_other]
    exact h.count
  · intro hwatcher
    simpa [Exchange.mark] using h.marker hwatcher
  · intro _
    cases hscope : s.scope with
    | none => exact .inl (by simp [Exchange.mark, hscope])
    | some b => exact .inr (by simp [Exchange.mark, hscope])

/-- Leaving the `try` keeps the invariant, if no request of the body's own is open. -/
theorem Kept.leave (h : Kept acts s) (hguard : s.guard = .yielded) (hinner : s.inner = 0)
    (body : Outcome) :
    Kept (acts ++ [.other]) (s.leave body) := by
  have hcount : s.cancelling = external acts + s.disconnected.toNat := by
    rw [h.count, own_eq (by simp [hguard]), hinner, Nat.add_zero]
  have hcalls : (acts ++ [Act.other]).count .cancels = s.disconnected.toNat :=
    (calls_append (by decide)).trans h.calls
  unfold Exchange.leave
  split
  · rename_i hcond
    refine ⟨?_, hcalls, by simp [Exchange.uncancel], h.marker, h.started,
      fun _ => .inr ⟨_, _, rfl⟩, ?_⟩
    · simp [Exchange.own, Exchange.uncancel, hcond.1, hcount, hcond.2, hinner]
    · intro body' outcome hleft
      cases hleft
      exact ⟨hinner, .inl ⟨hcond.1, hcond.2, rfl⟩⟩
  · rename_i hcond
    refine ⟨?_, hcalls, by simp, h.marker, h.started, fun _ => .inr ⟨_, _, rfl⟩, ?_⟩
    · rw [own_passed rfl, external_other]
      simp only [hinner, hcount, Nat.add_zero]
    · intro body' outcome hleft
      cases hleft
      exact ⟨hinner, .inr ⟨hcond, rfl⟩⟩

/-- The watcher goes on without calling `cancel`. -/
theorem Kept.watch (h : Kept acts s)
    (hwatcher : s.watcher = .created ∨ s.watcher = .polling ∨ s.watcher = .sleeping)
    (hruns : s.watcherCancelled = false)
    (pc : WatcherPc) : Kept (acts ++ [.other]) { s with watcher := pc } := by
  have hyielded := h.watching hwatcher hruns
  have hpresent : s.watcher ≠ .absent := by
    intro habsent
    simp [habsent] at hwatcher
  refine ⟨?_, (calls_append (by decide)).trans h.calls, fun _ _ => hyielded,
    fun _ => h.marker hpresent, h.started,
    h.guarded, h.left⟩
  rw [external_other]
  exact h.count

/-- A request to cancel that comes from elsewhere. -/
theorem Kept.request (h : Kept acts s) (ha : a ≠ .cancels)
    (hexternal : external (acts ++ [a]) = external acts + 1) :
    Kept (acts ++ [a]) { s with cancelling := s.cancelling + 1 } := by
  refine ⟨?_, (calls_append ha).trans h.calls, h.watching, h.marker, h.started, h.guarded, h.left⟩
  have hown : ({ s with cancelling := s.cancelling + 1 } : Exchange).own = s.own := rfl
  have hcount := h.count
  rw [hexternal, hown]
  simp only
  omega

theorem Kept.disconnect (h : Kept acts s) (hwatcher : s.watcher = .polling)
    (hruns : s.watcherCancelled = false) :
    Kept (acts ++ [.cancels])
    { s with watcher := .done, disconnected := true, cancelling := s.cancelling + 1 } := by
  obtain ⟨hyielded, hcalm⟩ := h.watching (.inr (.inl hwatcher)) hruns
  refine ⟨?_, ?_, by simp, fun _ => h.marker (by simp [hwatcher]), h.started,
    fun _ => .inl hyielded, ?_⟩
  · rw [external_cancels, h.count, own_eq (by simp [hyielded]), hcalm, own_eq (by simp [hyielded])]
    rfl
  · rw [List.count_append, h.calls, hcalm]
    rfl
  · simp [hyielded]

/-- Every step of the server, the watcher and the guard keeps the invariant. -/
theorem step_kept (hstep : Step config method a s t) (h : Kept acts s) : Kept (acts ++ [a]) t := by
  have hcalls : a ≠ .cancels → (acts ++ [a]).count .cancels = s.disconnected.toNat := fun ha =>
    (calls_append ha).trans h.calls
  cases hstep with
  | enters hguard => exact h.enter hguard
  | marks hresponse => exact h.mark
  | sends hresponse =>
    exact ⟨by rw [external_other]; exact h.count, hcalls (by decide), h.watching, h.marker,
      fun _ => h.started (by simp [hresponse]), h.guarded, h.left⟩
  | begins hwatcher hruns => exact h.watch (by tauto) hruns _
  | sleeps hwatcher hruns => exact h.watch (.inr (.inl hwatcher)) hruns _
  | fails hwatcher hruns => exact h.watch (.inr (.inl hwatcher)) hruns _
  | passes hwatcher hruns hscope => exact h.watch (.inr (.inl hwatcher)) hruns _
  | cancels hwatcher hruns hscope => exact h.disconnect hwatcher hruns
  | reaches hguard => exact h.request (by decide) external_reaches
  | early hguard => exact h.request (by decide) external_early
  | scopeCancels hguard =>
    refine ⟨?_, hcalls (by decide), h.watching, h.marker, h.started, h.guarded, ?_⟩
    · have hown : ({ s with
        cancelling := s.cancelling + 1, inner := s.inner + 1 } : Exchange).own = s.own := rfl
      rw [external_other, hown]
      have := h.count
      simp only
      omega
    · intro body outcome hleft
      simp only at hleft
      simp [hleft] at hguard
  | scopeEnds hinner =>
    refine ⟨?_, hcalls (by decide), h.watching, h.marker, h.started, h.guarded, ?_⟩
    · have hown : ({ s.uncancel with inner := s.inner - 1 } : Exchange).own = s.own := rfl
      rw [external_other, hown]
      have := h.count
      simp only [Exchange.uncancel]
      omega
    · intro body outcome hleft
      obtain ⟨hzero, -⟩ := h.left body outcome hleft
      omega
  | leaves body hguard hinner => exact h.leave hguard hinner body
  | returns body hguard hinner =>
    obtain ⟨hcalm, hnone⟩ := h.calm (.inr hguard)
    refine ⟨?_, hcalls (by decide), fun hwatcher hruns => absurd hruns (hnone hwatcher),
      h.marker, h.started,
      fun _ => .inr ⟨_, _, rfl⟩, ?_⟩
    · rw [own_passed rfl, external_other]
      exact h.count.trans (by rw [own_eq (by simp [hguard])])
    · intro body' outcome hleft
      cases hleft
      exact ⟨hinner, .inr ⟨by simp [hcalm], rfl⟩⟩

/-- So it holds after every interleaving. -/
theorem run_kept {marker : Bool} (hrun : Run config method marker acts s) : Kept acts s := by
  induction hrun with
  | start => exact kept_start marker
  | tail hrun hstep ih => exact step_kept hstep ih

/-- The watcher cancels the task only before the response, inside the guard, and once. -/
theorem watcher_cancels_once_before_response {marker : Bool}
    (hrun : Run config method marker acts s) :
    (∀ t, Step config method .cancels s t →
      s.response = .notStarted ∧ s.guard = .yielded ∧ Act.cancels ∉ acts) ∧
        acts.count .cancels ≤ 1 := by
  have h := run_kept hrun
  constructor
  · intro t hstep
    cases hstep with
    | cancels hwatcher hruns hscope =>
      obtain ⟨hyielded, hcalm⟩ := h.watching (.inr (.inl hwatcher)) hruns
      refine ⟨?_, hyielded, ?_⟩
      · by_contra hstarted
        obtain hnone | htrue := h.started hstarted
        · exact h.marker (by simp [hwatcher]) hnone
        · exact hscope htrue
      · rw [← List.count_eq_zero, h.calls, hcalm]
        rfl
  · rw [h.calls]
    exact Bool.toNat_le _

/-- A guarded request with its watcher at `is_disconnected`. -/
def polled : Exchange := { scope := some false, guard := .yielded, watcher := .polling }

theorem run_polled : Run {} (some "GET") true [.other, .other] polled :=
  .tail (.tail .start (.enters rfl)) (.begins (.inl rfl) rfl)

theorem watcher_cancels_once_before_response_polled :
    ∃ t, Step {} (some "GET") .cancels polled t ∧ polled.response = .notStarted ∧
      polled.guard = .yielded := by
  have hstep : Step {} (some "GET") .cancels polled _ := .cancels rfl rfl (by decide)
  obtain ⟨hresponse, hguard, -⟩ := (watcher_cancels_once_before_response run_polled).1 _ hstep
  exact ⟨_, hstep, hresponse, hguard⟩

/-- What the guard does with requests from elsewhere: they are kept, in the way the body
ended and in the count, if and only if the watcher did not cancel the task as well. -/
theorem external_cancellation_kept_iff {marker : Bool} {body outcome : Outcome}
    (hrun : Run config method marker acts s) (hleft : s.guard = .left body outcome) :
    (Act.reaches ∈ acts → outcome = body ∧ s.cancelling = external acts) ↔
      ¬ (Act.cancels ∈ acts ∧ Act.reaches ∈ acts) := by
  have h := run_kept hrun
  have hcalls : Act.cancels ∈ acts ↔ s.disconnected = true := by
    rw [← List.count_pos_iff, h.calls]
    cases s.disconnected <;> simp
  obtain ⟨hinner, ⟨rfl, hd, rfl⟩ | ⟨hpassed, rfl⟩⟩ := h.left body outcome hleft
  · simp [hcalls, hd]
  · have hcount := h.count
    rw [own_passed hleft, hinner, Nat.add_zero] at hcount
    rw [hcalls, hcount]
    cases s.disconnected <;> simp

theorem external_cancellation_kept_iff_shutdown : ∃ acts s, Run {} (some "GET") true acts s ∧
    s.guard = .left .cancelledError .cancelledError ∧ s.cancelling = 1 := by
  have hrun :=
    (run_polled.tail (Step.reaches (.inl rfl))).tail (Step.leaves .cancelledError rfl rfl)
  have h := (external_cancellation_kept_iff hrun rfl).mpr (by decide) (by decide)
  exact ⟨_, _, hrun, rfl, h.2⟩

/-- The client disconnects and the server shuts down: the shutdown's request is swallowed. -/
theorem shutdown_swallowed : ∃ acts s, Run {} (some "GET") true acts s ∧ Act.reaches ∈ acts ∧
    s.guard = .left .cancelledError .disconnected := by
  have hrun :=
    ((run_polled.tail (Step.cancels rfl rfl (by decide))).tail (Step.reaches (.inl rfl))).tail
    (Step.leaves .cancelledError rfl rfl)
  exact ⟨_, _, hrun, by decide, rfl⟩

end ClientCancellation

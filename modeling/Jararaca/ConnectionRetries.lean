import Jararaca.UnitOfWork

/-!
# The retry loop of a bus connection

`provide_connection` and `acquire_channel` of `AIOPikaConnectionFactory`: two generators under
`asynccontextmanager`, the inner one over a retry loop. What the user of the connection raises
is thrown at the yield inside `with attempt`, where tenacity takes it for a failed attempt. The
answers of the broker and of tenacity are given from outside; the loop has no last attempt, so
it runs on fuel.
-/
namespace ConnectionRetries

open Messages UnitOfWork

/-- An exception object: `own` is the one that the user of the connection raised. -/
structure Exn where
  exc : PyExc
  own : Bool
  deriving DecidableEq

inductive BusEffect where
  | connected
  | acquired
  | channelOpened
  | txSelected
  | txCommitted
  | txRolledBack
  | channelClosed
  | connectionReleased
  | connectionClosed
  deriving DecidableEq, Repr

/-- The pools that the factory was built with, and the answers it gets: to the `n`-th attempt
up to its yield and to leaving its connection, to the transaction, and from tenacity whether
an attempt that ended so is followed by another. -/
structure RetryEnv where
  connectionPool : Bool
  channelPool : Bool
  opens : Nat → Reply := fun _ => .ok ()
  closes : Nat → Reply := fun _ => .ok ()
  selects : Reply := .ok ()
  commits : Reply := .ok ()
  rollbacks : Reply := .ok ()
  retries : PyExc → Bool

/-- Where a generator stands after it was resumed; out of fuel it is still waiting. -/
inductive Outcome where
  | yielded (attempt : Nat)
  | returned
  | raised (x : Exn)
  | waiting

namespace RetryEnv

variable (env : RetryEnv)

/-- What one attempt does up to its yield: with both pools, with one for connections, with none. -/
def acquires : List BusEffect :=
  if env.connectionPool then [.acquired, .channelOpened] else [.connected, .channelOpened]

/-- What leaving its connection does. A channel is closed only where there are both pools. -/
def releases : List BusEffect :=
  if !env.connectionPool then [.connectionClosed]
  else if env.channelPool then [.channelClosed, .connectionReleased]
  else [.connectionReleased]

/-- `async for attempt in AsyncRetrying(...)`, from an attempt on to a yield. -/
def attempts : Nat → Nat → Outcome × List BusEffect
  | 0, _ => (.waiting, [])
  | fuel + 1, n =>
    match env.opens n with
    | .ok _ => (.yielded n, env.acquires)
    | .error c => if env.retries c then attempts fuel (n + 1) else (.raised ⟨c, false⟩, [])

/-- What reaches `with attempt` when `thrown` was thrown at the yield. -/
def reaches (n : Nat) (thrown : Option Exn) : Option Exn :=
  match env.closes n with
  | .ok _ => thrown
  | .error c => some ⟨c, false⟩

/-- `acquire_channel` resumed in its `n`-th attempt. `with attempt` swallows what reaches it;
the loop goes on, or raises it as the outcome of the last attempt. -/
def resume (fuel n : Nat) (thrown : Option Exn) : Outcome × List BusEffect :=
  match env.reaches n thrown with
  | none => (.returned, env.releases)
  | some x =>
    if env.retries x.exc then ((env.attempts fuel (n + 1)).1,
      env.releases ++ (env.attempts fuel (n + 1)).2)
    else (.raised x, env.releases)

/-- The except clause of `provide_connection`. -/
def handles (x : Exn) : Exn × List BusEffect :=
  if x.exc.isException then
    match env.rollbacks with
    | .ok _ => (x, [.txRolledBack])
    | .error r => (⟨r, false⟩, [])
  else (x, [])

/-- What is raised inside `async with self.acquire_channel()` once the user is done. -/
def afterUse : Reply → Option Exn × List BusEffect
  | .error e => let h := env.handles ⟨e, true⟩; (some h.1, h.2)
  | .ok _ =>
    match env.commits with
    | .ok _ => (none, [.txCommitted])
    | .error c => let h := env.handles ⟨c, false⟩; (some h.1, h.2)

end RetryEnv

/-- `__aexit__` of an `asynccontextmanager`: what leaves the block, if anything does. -/
def leaves (thrown : Option Exn) : Outcome → Option (Option Exn)
  | .waiting => none
  | .returned => some none
  | .raised x =>
    some (some (if thrown = some x then x else ⟨letOut (thrown.map Exn.exc) x.exc, false⟩))
  | .yielded _ =>
    some (some ⟨.error "RuntimeError"
      (if thrown.isSome then "generator didn't stop after athrow()" else "generator didn't stop"),
        false⟩)

/-- A generator that ends as a block inside it ended. -/
def ended : Option (Option Exn) → Outcome
  | none => .waiting
  | some none => .returned
  | some (some x) => .raised x

/-- One `async with provide_connection()`: how many publishers it handed out, what left it, and
what was done at the broker. -/
structure Use where
  publishers : Nat
  left : Option (Option Exn)
  effects : List BusEffect

/-- The user ends with `body`. -/
def provideConnection (env : RetryEnv) (fuel : Nat) (body : Reply) : Use :=
  let opened := env.attempts fuel 1
  match opened.1 with
  | .yielded n =>
    match env.selects with
    | .ok _ =>
      let thrown := match body with
        | .ok _ => none
        | .error e => some ⟨e, true⟩
      let pending := env.afterUse body
      let resumed := env.resume fuel n pending.1
      ⟨1, leaves thrown (ended (leaves pending.1 resumed.1)),
        opened.2 ++ [.txSelected] ++ pending.2 ++ resumed.2⟩
    | .error c =>
      let resumed := env.resume fuel n (some ⟨c, false⟩)
      ⟨0, leaves none (ended (leaves (some ⟨c, false⟩) resumed.1)), opened.2 ++ resumed.2⟩
  | outcome => ⟨0, leaves none outcome, opened.2⟩

/-- The user got its publisher, in the `n`-th attempt. -/
def Entered (env : RetryEnv) (fuel n : Nat) : Prop :=
  (env.attempts fuel 1).1 = .yielded n ∧ env.selects = .ok ()

/-- The user that raised `e` had one publisher, its transaction was rolled back and not
committed, and `e` is what leaves the block. -/
structure SeesOwnError (u : Use) (e : PyExc) : Prop where
  publishers : u.publishers = 1
  rolledBack : .txRolledBack ∈ u.effects
  notCommitted : .txCommitted ∉ u.effects
  left : u.left = some (some ⟨e, true⟩)

section Effects

variable (env : RetryEnv)

/-- Opening and leaving connections does nothing to a transaction. -/
theorem acquires_tx : .txRolledBack ∉ env.acquires ∧ .txCommitted ∉ env.acquires := by
  unfold RetryEnv.acquires
  split <;> decide

theorem releases_tx : .txRolledBack ∉ env.releases ∧ .txCommitted ∉ env.releases := by
  unfold RetryEnv.releases
  split
  · decide
  · split <;> decide

theorem attempts_tx (fuel n : Nat) :
    .txRolledBack ∉ (env.attempts fuel n).2 ∧ .txCommitted ∉ (env.attempts fuel n).2 := by
  induction fuel generalizing n with
  | zero => simp [RetryEnv.attempts]
  | succ fuel ih =>
    rw [RetryEnv.attempts]
    split
    · exact acquires_tx env
    · split
      · exact ih (n + 1)
      · simp

theorem resume_tx (fuel n : Nat) (thrown : Option Exn) :
    .txRolledBack ∉ (env.resume fuel n thrown).2 ∧ .txCommitted ∉ (env.resume fuel n thrown).2 := by
  have hreleases := releases_tx env
  unfold RetryEnv.resume
  split
  · exact hreleases
  · split
    · have hattempts := attempts_tx env fuel (n + 1)
      simp only [List.mem_append, not_or]
      exact ⟨⟨hreleases.1, hattempts.1⟩, ⟨hreleases.2, hattempts.2⟩⟩
    · exact hreleases

/-- No attempt raises what the user raised. -/
theorem attempts_raised {fuel n : Nat} {x : Exn} (h : (env.attempts fuel n).1 = .raised x) :
    x.own = false := by
  induction fuel generalizing n with
  | zero => simp [RetryEnv.attempts] at h
  | succ fuel ih =>
    rw [RetryEnv.attempts] at h
    split at h
    · cases h
    · split at h
      · exact ih h
      · cases h
        rfl

end Effects

section OwnError

variable {env : RetryEnv} {fuel n : Nat} {e : PyExc}

/-- Only what the generator raised itself leaves the block as the object that was thrown. -/
theorem leaves_own {x : Exn} {o : Outcome} (h : leaves (some x) o = some (some ⟨e, true⟩)) :
    o = .raised ⟨e, true⟩ ∧ x = ⟨e, true⟩ := by
  cases o with
  | yielded m => simp [leaves] at h
  | returned => simp [leaves] at h
  | waiting => simp [leaves] at h
  | raised y =>
    rw [leaves, Option.some.injEq, Option.some.injEq] at h
    split at h
    · next hxy =>
      cases h
      exact ⟨rfl, Option.some.inj hxy⟩
    · cases h

theorem ended_raised {o : Option (Option Exn)} {x : Exn} (h : ended o = .raised x) :
    o = some (some x) := by
  obtain _ | _ | y := o
  · cases h
  · cases h
  · cases h
    rfl

/-- What the user raised comes out of `acquire_channel` just where it reaches tenacity and is
not retried. -/
theorem resume_own_iff {x : Exn} (hx : x.own = true) :
    (env.resume fuel n (some x)).1 = .raised x ↔
      env.closes n = .ok () ∧ env.retries x.exc = false := by
  unfold RetryEnv.resume RetryEnv.reaches
  cases hcloses : env.closes n with
  | ok u =>
    simp only [true_and]
    split
    · next hretries =>
      rw [hretries]
      refine iff_of_false ?_ (by decide)
      intro hraised
      have hown := attempts_raised env hraised
      rw [hx] at hown
      cases hown
    · next hretries => exact iff_of_true rfl (by simpa using hretries)
  | error c =>
    simp only [reduceCtorEq, false_and, iff_false]
    split
    · intro hraised
      have hown := attempts_raised env hraised
      rw [hx] at hown
      cases hown
    · intro hraised
      cases hraised
      cases hx

theorem provideConnection_failed (h : Entered env fuel n) (e : PyExc) :
    provideConnection env fuel (.error e) =
      ⟨1, leaves (some ⟨e, true⟩) (ended (leaves (some (env.handles ⟨e, true⟩).1)
          (env.resume fuel n (some (env.handles ⟨e, true⟩).1)).1)),
        (env.attempts fuel 1).2 ++ [.txSelected] ++ (env.handles ⟨e, true⟩).2 ++
          (env.resume fuel n (some (env.handles ⟨e, true⟩).1)).2⟩ := by
  simp only [provideConnection, h.1, h.2, RetryEnv.afterUse]

theorem handles_rolledBack_iff {x : Exn} :
    .txRolledBack ∈ (env.handles x).2 ↔ x.exc.isException = true ∧ env.rollbacks = .ok () := by
  unfold RetryEnv.handles
  split
  · next hexc =>
    cases hr : env.rollbacks with
    | ok u => simp [hexc]
    | error r => simp
  · next hexc => simp [hexc]

theorem handles_not_committed (x : Exn) : .txCommitted ∉ (env.handles x).2 := by
  unfold RetryEnv.handles
  split
  · split <;> simp
  · simp

theorem handles_ok {x : Exn} (hexc : x.exc.isException = true) (hr : env.rollbacks = .ok ()) :
    env.handles x = (x, [.txRolledBack]) := by
  rw [RetryEnv.handles, if_pos hexc, hr]

/-- When the user that raised sees its own error: for an `Exception` that is rolled back, where
its connection is left without another error, and tenacity does not retry it. -/
theorem own_error_iff (h : Entered env fuel n) :
    SeesOwnError (provideConnection env fuel (.error e)) e ↔
      e.isException = true ∧ env.rollbacks = .ok () ∧ env.closes n = .ok () ∧
        env.retries e = false := by
  rw [provideConnection_failed h]
  constructor
  · intro hsees
    have hrolled : .txRolledBack ∈ (env.handles ⟨e, true⟩).2 := by
      have hmem := hsees.rolledBack
      simp only [List.mem_append, List.mem_singleton, reduceCtorEq, or_false,
        (attempts_tx env fuel 1).1, false_or,
        (resume_tx env fuel n _).1] at hmem
      exact hmem
    obtain ⟨hexc, hr⟩ := handles_rolledBack_iff.mp hrolled
    have hleft := hsees.left
    simp only [handles_ok hexc hr] at hleft
    obtain ⟨hended, -⟩ := leaves_own hleft
    obtain ⟨hresumed, -⟩ := leaves_own (ended_raised hended)
    obtain ⟨hcloses, hretries⟩ := (resume_own_iff rfl).mp hresumed
    exact ⟨hexc, hr, hcloses, hretries⟩
  · rintro ⟨hexc, hr, hcloses, hretries⟩
    have hresumed : (env.resume fuel n (some ⟨e, true⟩)).1 = .raised ⟨e, true⟩ :=
      (resume_own_iff rfl).mpr ⟨hcloses, hretries⟩
    rw [handles_ok hexc hr]
    refine ⟨rfl, by simp, ?_, ?_⟩
    · simp [(attempts_tx env fuel 1).2, (resume_tx env fuel n _).2]
    · simp [hresumed, leaves, ended]

/-- Whoever raises had one publisher and does not commit. -/
theorem failed_use (h : Entered env fuel n) (e : PyExc) :
    (provideConnection env fuel (.error e)).publishers = 1 ∧
      .txCommitted ∉ (provideConnection env fuel (.error e)).effects := by
  rw [provideConnection_failed h]
  simp [(attempts_tx env fuel 1).2, (resume_tx env fuel n _).2, handles_not_committed]

/-- What leaves instead, where the next attempt gets a channel. -/
theorem failed_left (h : Entered env fuel n) (hretries : env.retries e = true)
    (hexc : e.isException = true)
    (hrollback : env.rollbacks = .ok ()) (hcloses : env.closes n = .ok ())
    (hopens : env.opens (n + 1) = .ok ()) :
    (provideConnection env fuel (.error e)).left =
      some (some ⟨.error "RuntimeError" "generator didn't stop after athrow()", false⟩) := by
  have hfuel : fuel ≠ 0 := by
    rintro rfl
    have hentered := h.1
    cases hentered
  obtain ⟨fuel, rfl⟩ := Nat.exists_eq_succ_of_ne_zero hfuel
  have hresumed : (env.resume (fuel + 1) n (some ⟨e, true⟩)).1 = .yielded (n + 1) := by
    simp [RetryEnv.resume, RetryEnv.reaches, hcloses, hretries, RetryEnv.attempts, hopens]
  rw [provideConnection_failed h, handles_ok hexc hrollback, hresumed]
  simp [leaves, ended, letOut, endsIteration]

/-- A user whose failure tenacity takes for a failed attempt never sees its own error: whatever
it raises and however the broker answers, another exception leaves the block, or none at all
while the loop goes on. -/
theorem own_error_never_seen (env : RetryEnv) (fuel n : Nat) (h : Entered env fuel n)
    (hretries : ∀ e, e.isException = true → env.retries e = true) (e : PyExc) :
    ¬SeesOwnError (provideConnection env fuel (.error e)) e ∧
      ((provideConnection env fuel (.error e)).publishers = 1 ∧
        .txCommitted ∉ (provideConnection env fuel (.error e)).effects) ∧
      (e.isException = true → env.rollbacks = .ok () → env.closes n = .ok () →
        env.opens (n + 1) = .ok () →
        (provideConnection env fuel (.error e)).left =
          some (some ⟨.error "RuntimeError" "generator didn't stop after athrow()", false⟩)) := by
  refine ⟨?_, failed_use h e, fun hexc => failed_left h (hretries e hexc) hexc⟩
  rw [own_error_iff h]
  rintro ⟨hexc, -, -, hnot⟩
  rw [hretries e hexc] at hnot
  cases hnot

end OwnError

/-- A factory without pools, whose broker answers, and tenacity as `AsyncRetrying` has it by
default. -/
def answering : RetryEnv where
  connectionPool := false
  channelPool := false
  retries := PyExc.isException

def unroutable : PyExc := .error "ValueError" "no such exchange"

theorem answering_entered : Entered answering 1 1 := ⟨rfl, rfl⟩

/-- The user raises a `ValueError` and gets a `RuntimeError`, after the rollback. -/
theorem value_error_replaced :
    ¬SeesOwnError (provideConnection answering 1 (.error unroutable)) unroutable ∧
      (provideConnection answering 1 (.error unroutable)).effects =
        [.connected, .channelOpened, .txSelected, .txRolledBack, .connectionClosed, .connected,
          .channelOpened] ∧
      (provideConnection answering 1 (.error unroutable)).left =
        some (some ⟨.error "RuntimeError" "generator didn't stop after athrow()", false⟩) := by
  refine ⟨?_, rfl, failed_left answering_entered rfl rfl rfl rfl rfl⟩
  rw [own_error_iff answering_entered]
  rintro ⟨-, -, -, hnot⟩
  cases hnot

/-- An unroutable message on a connection that was retried. -/
theorem unroutable_not_seen :
    ¬SeesOwnError (provideConnection answering 1 (.error unroutable)) unroutable :=
  (own_error_never_seen answering 1 1 answering_entered (fun _ h => h) unroutable).1

end ConnectionRetries

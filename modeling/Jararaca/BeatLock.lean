import Jararaca.Messages
import Mathlib.Logic.Relation

/-!
# The beat lock

`RedisMessageBrokerBackend.lock` of redis_broker_backend.py, for any number of calls
that share one key. The commands and the release script are atomic at the server, and a
call goes on only when the reply has come back; the clock readings, the loss of a reply and
the end of a TTL are choices of the environment. Every change of the key is kept with its
author.
-/
namespace BeatLock

open Messages

variable {ι τ : Type}

/-- `SET key token NX PX ttl`: the key afterwards, and whether it was set. -/
def setNx (key : Option τ) (token : τ) : Option τ × Bool :=
  match key with
  | none => (some token, true)
  | some held => (some held, false)

/-- `_RELEASE_LOCK_SCRIPT`: the key afterwards, and what the script returns. -/
def releaseLock [DecidableEq τ] (key : Option τ) (token : τ) : Option τ × Nat :=
  if key = some token then (none, 1) else (key, 0)

/-- How a `lock()` block ended. `interrupted` is any other exception before the yield;
`left` keeps how the body ended and whether the release was answered. -/
inductive Ending where
  | notAcquired
  | interrupted
  | left (body : Reply) (released : Bool)

/-- Where one call of `lock` stands. -/
inductive Pc where
  | idle
  | setting (deadline : ℚ)
  -- the server has executed the command, and its reply is under way
  | answered (deadline : ℚ) (acquired : Bool)
  | refused (deadline : ℚ)
  | sleeping (deadline : ℚ)
  | inside
  | releasing (body : Reply)
  | ended (how : Ending)

/-- A change of the key, with its author. -/
inductive Change (ι : Type) where
  | set (call : ι)
  | deleted (call : ι)
  | expired
  deriving DecidableEq

structure State (ι τ : Type) where
  beatLockKey : Option τ
  call : ι → Pc
  changes : List (Change ι) := []

def State.goto [DecidableEq ι] (s : State ι τ) (c : ι) (pc : Pc) : State ι τ :=
  { s with call := Function.update s.call c pc }

def State.write [DecidableEq τ] (s : State ι τ) (key : Option τ) (change : Change ι) : State ι τ :=
  if key = s.beatLockKey then s
  else { s with beatLockKey := key, changes := s.changes ++ [change] }

section Fields

variable (s : State ι τ) (c d : ι) (pc : Pc) (key : Option τ) (change : Change ι)

@[simp] theorem goto_key [DecidableEq ι] : (s.goto c pc).beatLockKey = s.beatLockKey := rfl

@[simp] theorem goto_changes [DecidableEq ι] : (s.goto c pc).changes = s.changes := rfl

@[simp] theorem goto_call [DecidableEq ι] :
    (s.goto c pc).call d = if d = c then pc else s.call d := by
  simp [State.goto, Function.update_apply]

variable [DecidableEq τ]

@[simp] theorem write_key : (s.write key change).beatLockKey = key := by
  unfold State.write
  split
  · rename_i h
    exact h.symm
  · rfl

@[simp] theorem write_call : (s.write key change).call = s.call := by
  unfold State.write
  split <;> rfl

theorem write_same : s.write s.beatLockKey change = s := by simp [State.write]

theorem mem_write_changes {other : Change ι} (h : other ∈ (s.write key change).changes) :
    other ∈ s.changes ∨ other = change := by
  unfold State.write at h
  split at h
  · exact .inl h
  · simpa using h

end Fields

section Script

variable {key : Option τ} {held : τ}

theorem setNx_acquired (h : (setNx key held).2 = true) :
    key = none ∧ (setNx key held).1 = some held := by
  cases key with
  | none => exact ⟨rfl, rfl⟩
  | some other => simp [setNx] at h

theorem setNx_refused (h : (setNx key held).2 = false) : (setNx key held).1 = key := by
  cases key with
  | none => simp [setNx] at h
  | some other => rfl

/-- The script deletes a key that holds its own token, and nothing else. -/
theorem releaseLock_changes [DecidableEq τ] (h : (releaseLock key held).1 ≠ key) :
    key = some held := by
  by_contra hne
  simp [releaseLock, hne] at h

end Script

inductive Event (ι : Type) where
  | acquire (call : ι)
  | release (call : ι)
  | expire
  | proceed (call : ι)

variable [DecidableEq ι] [DecidableEq τ] (token : ι → τ) (timeout : ℚ)

/-- One step of one call, or the end of a TTL. `now` is what `time.monotonic()` gives. -/
inductive Step : Event ι → State ι τ → State ι τ → Prop
  | starts {s c} (now : ℚ) (h : s.call c = .idle) :
      Step (.proceed c) s (s.goto c (.setting (now + timeout)))
  | sets {s c deadline} (h : s.call c = .setting deadline) :
      Step (.acquire c) s ((s.write (setNx s.beatLockKey (token c)).1 (.set c)).goto c
        (.answered deadline (setNx s.beatLockKey (token c)).2))
  | enters {s c deadline} (h : s.call c = .answered deadline true) :
      Step (.proceed c) s (s.goto c .inside)
  | refuses {s c deadline} (h : s.call c = .answered deadline false) :
      Step (.proceed c) s (s.goto c (.refused deadline))
  -- the command raises before it reached the server, or its reply is lost
  | setRaises {s c deadline} (h : s.call c = .setting deadline) :
      Step (.proceed c) s (s.goto c (.ended .interrupted))
  | replyLost {s c deadline acquired} (h : s.call c = .answered deadline acquired) :
      Step (.proceed c) s (s.goto c (.ended .interrupted))
  | timesOut {s c deadline} (now : ℚ) (h : s.call c = .refused deadline) (hnow : deadline ≤ now) :
      Step (.proceed c) s (s.goto c (.ended .notAcquired))
  | sleeps {s c deadline} (now : ℚ) (h : s.call c = .refused deadline) (hnow : now < deadline) :
      Step (.proceed c) s (s.goto c (.sleeping deadline))
  | wakes {s c deadline} (h : s.call c = .sleeping deadline) :
      Step (.proceed c) s (s.goto c (.setting deadline))
  | cancelled {s c deadline} (h : s.call c = .sleeping deadline) :
      Step (.proceed c) s (s.goto c (.ended .interrupted))
  | leaves {s c} (body : Reply) (h : s.call c = .inside) :
      Step (.proceed c) s (s.goto c (.releasing body))
  -- the script runs; its answer may still be lost
  | releases {s c body} (h : s.call c = .releasing body) (answered : Bool) :
      Step (.release c) s
        ((s.write (releaseLock s.beatLockKey (token c)).1 (.deleted c)).goto c
          (.ended (.left body answered)))
  | releaseFails {s c body} (h : s.call c = .releasing body) :
      Step (.release c) s (s.goto c (.ended (.left body false)))
  | expires {s held} (h : s.beatLockKey = some held) : Step .expire s (s.write none .expired)

def Runs : State ι τ → State ι τ → Prop :=
  Relation.ReflTransGen fun s t => ∃ e, Step token timeout e s t

/-- A call has the lock: it is inside its body, or the reply that lets it in is under way. -/
def Pc.holding : Pc → Bool
  | .answered _ acquired => acquired
  | .inside => true
  | _ => false

/-- No TTL ends while the holder of the lock is inside its body. -/
def Calm (e : Event ι) (s : State ι τ) : Prop :=
  e = .expire → ∀ c, s.beatLockKey = some (token c) → s.call c ≠ .inside

/-- No TTL ends between the command that took the lock and the end of its holder's body. -/
def Covered (e : Event ι) (s : State ι τ) : Prop :=
  e = .expire → ∀ c, s.beatLockKey = some (token c) → (s.call c).holding = false

def RunsWith (P : Event ι → State ι τ → Prop) : State ι τ → State ι τ → Prop :=
  Relation.ReflTransGen fun s t => ∃ e, Step token timeout e s t ∧ P e s

/-- The calls have not begun; the key may hold anything. -/
structure Start (s : State ι τ) : Prop where
  idle : ∀ c, s.call c = .idle
  unchanged : s.changes = []

/-- The places of a call before it has the lock, and the end of one that gave up. -/
def Pc.waiting : Pc → Bool
  | .idle | .setting _ | .answered _ false | .refused _ | .sleeping _ | .ended .notAcquired => true
  | _ => false

/-- No call that waits, or that gave up, has changed the key. -/
def Quiet (s : State ι τ) : Prop :=
  ∀ c, (s.call c).waiting = true → .set c ∉ s.changes ∧ .deleted c ∉ s.changes

/-- Whoever has the lock holds the key. -/
def Holds (s : State ι τ) : Prop :=
  ∀ c, (s.call c).holding = true → s.beatLockKey = some (token c)

variable {token} {timeout} {s t : State ι τ} {e : Event ι}

omit [DecidableEq τ] in
/-- A call that goes on without touching the key. -/
theorem Quiet.goto (h : Quiet s) {c : ι} {pc : Pc}
    (hpc : pc.waiting = true → (s.call c).waiting = true) :
    Quiet (s.goto c pc) := by
  intro d hd
  rw [goto_call] at hd
  rw [goto_changes]
  split at hd
  · rename_i heq
    subst heq
    exact h d (hpc hd)
  · exact h d hd

/-- A call that touches the key as `c` and does not wait afterwards. -/
theorem Quiet.write_goto (h : Quiet s) {c : ι} {pc : Pc} (hpc : pc.waiting = false) (key : Option τ)
    {change : Change ι} (hc : change = .set c ∨ change = .deleted c) :
    Quiet ((s.write key change).goto c pc) := by
  intro d hd
  rw [goto_call, write_call] at hd
  rw [goto_changes]
  split at hd
  · rw [hpc] at hd
    cases hd
  · rename_i hne
    obtain ⟨hset, hdel⟩ := h d hd
    have hother : .set d ≠ change ∧ .deleted d ≠ change := by
      obtain rfl | rfl := hc <;> simp [hne]
    constructor
    · intro hmem
      obtain hold | hnew := mem_write_changes s key change hmem
      · exact hset hold
      · exact hother.1 hnew
    · intro hmem
      obtain hold | hnew := mem_write_changes s key change hmem
      · exact hdel hold
      · exact hother.2 hnew

/-- One step keeps `Quiet`. -/
theorem step_quiet (hstep : Step token timeout e s t) (h : Quiet s) : Quiet t := by
  cases hstep with
  | starts now hc => exact h.goto fun _ => by rw [hc]; rfl
  | @sets s c deadline hc =>
    cases hset : (setNx s.beatLockKey (token c)).2 with
    | true => exact h.write_goto rfl _ (.inl rfl)
    | false =>
      rw [setNx_refused hset, write_same]
      exact h.goto fun _ => by rw [hc]; rfl
  | enters hc => exact h.goto fun hw => by cases hw
  | refuses hc => exact h.goto fun _ => by rw [hc]; rfl
  | setRaises hc => exact h.goto fun hw => by cases hw
  | replyLost hc => exact h.goto fun hw => by cases hw
  | timesOut now hc hnow => exact h.goto fun _ => by rw [hc]; rfl
  | sleeps now hc hnow => exact h.goto fun _ => by rw [hc]; rfl
  | wakes hc => exact h.goto fun _ => by rw [hc]; rfl
  | cancelled hc => exact h.goto fun hw => by cases hw
  | leaves body hc => exact h.goto fun hw => by cases hw
  | releases hc answered => exact h.write_goto rfl _ (.inr rfl)
  | releaseFails hc => exact h.goto fun hw => by cases hw
  | expires hkey =>
    intro d hd
    rw [write_call] at hd
    obtain ⟨hset, hdel⟩ := h d hd
    constructor
    · intro hmem
      obtain hold | hnew := mem_write_changes s none .expired hmem
      · exact hset hold
      · cases hnew
    · intro hmem
      obtain hold | hnew := mem_write_changes s none .expired hmem
      · exact hdel hold
      · cases hnew

/-- One covered step keeps the key with whoever has the lock. -/
theorem step_holds (hinj : Function.Injective token) (hstep : Step token timeout e s t)
    (hcovered : Covered token e s) (h : Holds token s) : Holds token t := by
  -- a call that goes on without touching the key, and has the lock only if it had it before
  have hgoto : ∀ c pc, (pc.holding = true → (s.call c).holding = true) →
      Holds token (s.goto c pc) := by
    intro c pc hpc d hd
    rw [goto_call] at hd
    rw [goto_key]
    split at hd
    · next heq =>
      subst heq
      exact h d (hpc hd)
    · exact h d hd
  cases hstep with
  | starts now hc => exact hgoto _ _ nofun
  | @sets _ c deadline hc =>
    cases hset : (setNx s.beatLockKey (token c)).2 with
    | false =>
      rw [setNx_refused hset, write_same]
      exact hgoto _ _ nofun
    | true =>
      obtain ⟨hnone, hkey⟩ := setNx_acquired hset
      intro d hd
      rw [goto_key, write_key, hkey]
      rw [goto_call, write_call] at hd
      split at hd
      · next heq => rw [heq]
      · -- nobody else has the lock: the key was free
        have hheld := h d hd
        rw [hnone] at hheld
        cases hheld
  | enters hc => exact hgoto _ _ fun _ => by rw [hc]; rfl
  | refuses hc => exact hgoto _ _ nofun
  | setRaises hc => exact hgoto _ _ nofun
  | replyLost hc => exact hgoto _ _ nofun
  | timesOut now hc hnow => exact hgoto _ _ nofun
  | sleeps now hc hnow => exact hgoto _ _ nofun
  | wakes hc => exact hgoto _ _ nofun
  | cancelled hc => exact hgoto _ _ nofun
  | leaves body hc => exact hgoto _ _ nofun
  | @releases _ c body hc answered =>
    intro d hd
    rw [goto_call, write_call] at hd
    split at hd
    · cases hd
    · rename_i hne
      have hheld := h d hd
      have hother : ¬token d = token c := fun heq => hne (hinj heq)
      rw [goto_key, write_key, hheld]
      simp [releaseLock, hother]
  | releaseFails hc => exact hgoto _ _ nofun
  | expires hkey =>
    intro d hd
    rw [write_call] at hd
    rw [hcovered rfl d (h d hd)] at hd
    cases hd

/-- In every run a call that waits, or that gave up, has changed nothing. -/
theorem runs_quiet {s₀ : State ι τ} (hstart : Start s₀) (hrun : Runs token timeout s₀ s) :
    Quiet s := by
  induction hrun with
  | refl =>
    intro c _
    simp [hstart.unchanged]
  | tail _ hstep ih =>
    obtain ⟨e, hstep⟩ := hstep
    exact step_quiet hstep ih

/-- In a run whose calls stay within their time, whoever has the lock holds the key. -/
theorem coveredRuns_holds (hinj : Function.Injective token) {s₀ : State ι τ} (hstart : Start s₀)
    (hrun : RunsWith token timeout (Covered token) s₀ s) : Holds token s := by
  induction hrun with
  | refl =>
    intro c hc
    rw [hstart.idle c] at hc
    cases hc
  | tail _ hstep ih =>
    obtain ⟨e, hstep, hcovered⟩ := hstep
    exact step_holds hinj hstep hcovered ih

/-- A release step changes only a key that holds the token of its call. -/
theorem release_deletes {c : ι} (hstep : Step token timeout (.release c) s t)
    (hchanged : t.beatLockKey ≠ s.beatLockKey) : s.beatLockKey = some (token c) := by
  cases hstep with
  | releases hc answered =>
    rw [goto_key, write_key] at hchanged
    exact releaseLock_changes hchanged
  | releaseFails hc => exact absurd rfl hchanged

/-- The beat lock is safe: a release deletes no other token, a call that gave up has not
changed the key, and where every TTL outlasts the reply to the command that took the lock and
the body of its holder, two calls are never inside. -/
theorem beat_lock_safe (hinj : Function.Injective token) {s₀ : State ι τ}
    (hstart : Start s₀) :
    (∀ s t c, Runs token timeout s₀ s → Step token timeout (.release c) s t →
      t.beatLockKey ≠ s.beatLockKey → s.beatLockKey = some (token c)) ∧
    (∀ s c, Runs token timeout s₀ s → s.call c = .ended .notAcquired →
      .set c ∉ s.changes ∧ .deleted c ∉ s.changes) ∧
    (∀ s, RunsWith token timeout (Covered token) s₀ s →
      ∀ c d, s.call c = .inside → s.call d = .inside → c = d) := by
  refine ⟨?_, ?_, ?_⟩
  · intro s t c _ hstep hchanged
    exact release_deletes hstep hchanged
  · intro s c hrun hc
    exact runs_quiet hstart hrun c (by rw [hc]; rfl)
  · intro s hrun c d hc hd
    have hholds := coveredRuns_holds hinj hstart hrun
    have hsame : some (token c) = some (token d) :=
      (hholds c (by rw [hc]; rfl)).symm.trans (hholds d (by rw [hd]; rfl))
    exact hinj (Option.some.inj hsame)

section Contention

def tokens (first : Bool) : Nat := if first then 1 else 2

/-- The two workers have different tokens. -/
theorem tokens_injective : Function.Injective tokens := by
  intro c d h
  cases c <;> cases d <;> simp_all [tokens]

def unlocked : State Bool Nat := ⟨none, fun _ => .idle, []⟩

theorem unlocked_start : Start unlocked := ⟨fun _ => rfl, rfl⟩

/-- The reply that lets the first call in is under way. -/
def answered : State Bool Nat :=
  ((unlocked.goto true (.setting 10)).write (some 1) (.set true)).goto true (.answered 10 true)

theorem answered_reached {P : Event Bool → State Bool Nat → Prop}
    (hcalls : ∀ c s, P (.acquire c) s ∧ P (.proceed c) s) :
    RunsWith tokens 10 P unlocked answered := by
  have h1 : RunsWith tokens 10 P unlocked (unlocked.goto true (.setting 10)) :=
    .single ⟨_, by simpa using Step.starts (c := true) 0 rfl, (hcalls true _).2⟩
  exact .tail h1 ⟨_, Step.sets (c := true) rfl, (hcalls true _).1⟩

/-- The first call is inside. -/
def locked : State Bool Nat := answered.goto true .inside

/-- The second call has polled and given up. -/
def contended : State Bool Nat :=
  (((locked.goto false (.setting 10)).goto false (.answered 10 false)).goto false
    (.refused 10)).goto false (.ended .notAcquired)

theorem covered_calls (c : Bool) (s : State Bool Nat) :
    Covered tokens (.acquire c) s ∧ Covered tokens (.proceed c) s := ⟨(nomatch ·), (nomatch ·)⟩

theorem contended_reached : RunsWith tokens 10 (Covered tokens) unlocked contended := by
  have h1 : RunsWith tokens 10 (Covered tokens) unlocked locked :=
    .tail (answered_reached covered_calls)
      ⟨_, Step.enters (c := true) rfl, (covered_calls true _).2⟩
  have h2 : RunsWith tokens 10 (Covered tokens) unlocked (locked.goto false (.setting 10)) :=
    .tail h1 ⟨_, by simpa using Step.starts (c := false) 0 rfl, (covered_calls false _).2⟩
  have h3 : RunsWith tokens 10 (Covered tokens) unlocked
      ((locked.goto false (.setting 10)).goto false (.answered 10 false)) :=
    .tail h2 ⟨_, Step.sets (c := false) rfl, (covered_calls false _).1⟩
  have h4 := h3.tail ⟨_, Step.refuses (c := false) rfl, (covered_calls false _).2⟩
  exact .tail h4 ⟨_, Step.timesOut (c := false) 10 rfl (le_refl _), (covered_calls false _).2⟩

/-- The first call is inside, the second gave up and left no trace. -/
theorem contended_safe :
    Function.Injective tokens ∧ Start unlocked ∧
      RunsWith tokens 10 (Covered tokens) unlocked contended ∧
      contended.call true = .inside ∧ contended.call false = .ended .notAcquired ∧
      .set false ∉ contended.changes ∧
      ∀ c d, contended.call c = .inside → contended.call d = .inside → c = d := by
  have hruns : Runs tokens 10 unlocked contended :=
    Relation.ReflTransGen.mono (fun _ _ ⟨e, h, _⟩ => ⟨e, h⟩) _ _ contended_reached
  have hquiet := (beat_lock_safe tokens_injective unlocked_start).2.1 contended false hruns rfl
  have hexclusive :=
    (beat_lock_safe tokens_injective unlocked_start).2.2 contended contended_reached
  exact ⟨tokens_injective, unlocked_start, contended_reached, rfl, rfl, hquiet.1, hexclusive⟩

/-- The TTL ends while the reply of the first call is under way, and the second call takes
the lock. -/
def overtaken : State Bool Nat :=
  (((((answered.write none .expired).goto false (.setting 10)).write (some 2) (.set false)).goto
    false (.answered 10 true)).goto false .inside).goto true .inside

/-- Two calls are inside, though no TTL ended while the holder of the lock was. -/
theorem stale_reply_lets_two_in :
    Function.Injective tokens ∧ Start unlocked ∧
      RunsWith tokens 10 (Calm tokens) unlocked overtaken ∧
      overtaken.call true = .inside ∧ overtaken.call false = .inside := by
  have hcalm : ∀ (c : Bool) (s : State Bool Nat),
      Calm tokens (.acquire c) s ∧ Calm tokens (.proceed c) s :=
    fun c s => ⟨(nomatch ·), (nomatch ·)⟩
  have hoff : Calm tokens .expire answered := by
    intro _ c _
    cases c <;> nofun
  have h1 : RunsWith tokens 10 (Calm tokens) unlocked (answered.write none .expired) :=
    .tail (answered_reached hcalm) ⟨_, Step.expires rfl, hoff⟩
  have h2 : RunsWith tokens 10 (Calm tokens) unlocked
      ((answered.write none .expired).goto false (.setting 10)) :=
    .tail h1 ⟨_, by simpa using Step.starts (c := false) 0 rfl, (hcalm false _).2⟩
  have h3 : RunsWith tokens 10 (Calm tokens) unlocked
      ((((answered.write none .expired).goto false (.setting 10)).write (some 2)
        (.set false)).goto false (.answered 10 true)) :=
    .tail h2 ⟨_, Step.sets (c := false) rfl, (hcalm false _).1⟩
  have h4 := h3.tail ⟨_, Step.enters (c := false) rfl, (hcalm false _).2⟩
  exact ⟨tokens_injective, unlocked_start,
    .tail h4 ⟨_, Step.enters (c := true) rfl, (hcalm true _).2⟩, rfl, rfl⟩

end Contention

end BeatLock

import Mathlib.Logic.Relation
import Jararaca.SocketBackend

/-!
# The supervision of the consumers

The done callbacks, the delayed restarts and the set-up functions of the Redis backend keep
one consumer on each channel. A consumer is live until its task ends, then a restart is pending:
its callback has not run yet, or a task of `_retry_send_consumer_with_delay` or
`_retry_broadcast_consumer_with_delay` waits. Its task may end anywhere and in any way here,
also where the code of the consumer gives no reason to.
-/
namespace ConsumerSupervision

open SocketBackend

/-- A step of the backend, or the task of a consumer ends: it returns, raises or was cancelled. -/
inductive Supervised : Backend → Backend → Prop
  | step {a s t} (hstep : Step a s t) : Supervised s t
  | ends {s i c} (h : s.consumers[i]? = some c) (hlive : c.pc.isOver = false) :
      Supervised s (s.put i { c with pc := .ended })

/-- What may come after `configure`. -/
def Reachable (maxConcurrentTasks : Nat) : Backend → Prop :=
  Relation.ReflTransGen Supervised (.configure maxConcurrentTasks)

def liveConsumers (s : Backend) (channel : Channel) : Nat :=
  s.consumers.countP fun c => decide (c.channel = channel) && !c.pc.isOver

/-- The ended tasks whose callback has not run, and the restarts that wait. -/
def pendingRestarts (s : Backend) (channel : Channel) : Nat :=
  (s.consumers.countP fun c => decide (c.channel = channel) && decide (c.pc = .ended)) +
    s.retries.count channel

/-- The callback of this consumer of the channel has not run. -/
def watched (channel : Channel) (c : Consumer) : Bool :=
  decide (c.channel = channel) && decide (c.pc ≠ .reaped)

/-- The live consumers and the pending restarts of a channel. -/
def charge (s : Backend) (channel : Channel) : Nat :=
  s.consumers.countP (watched channel) + s.retries.count channel

/-- A step that starts no consumer, runs no callback and wakes no restart. -/
structure Keeps (s t : Backend) : Prop where
  consumers : t.consumers.length = s.consumers.length
  charge : ∀ channel, charge t channel = charge s channel
  event : s.shutdownEvent = true → t.shutdownEvent = true

section Steps

variable {s t : Backend} {i : Nat} {c : Consumer}

/-- What is in charge of a channel lives, or its restart is pending. -/
theorem charge_eq (s : Backend) (channel : Channel) :
    charge s channel = liveConsumers s channel + pendingRestarts s channel := by
  have hsplit : s.consumers.countP (watched channel) =
      (s.consumers.countP fun c => decide (c.channel = channel) && !c.pc.isOver) +
        s.consumers.countP fun c => decide (c.channel = channel) && decide (c.pc = .ended) := by
    induction s.consumers with
    | nil => rfl
    | cons c rest ih =>
      rw [List.countP_cons, List.countP_cons, List.countP_cons, ih]
      obtain ⟨own, pc, registered⟩ := c
      by_cases hown : own = channel <;> cases pc <;> simp [watched, hown, Pc.isOver] <;> omega
  unfold charge liveConsumers pendingRestarts
  omega

/-- The consumer moves on and the callback of its task does not run. -/
theorem charge_put {pc : Pc} (h : s.consumers[i]? = some c) (hpc : c.pc ≠ .reaped)
    (hpc' : pc ≠ .reaped)
    (channel : Channel) : charge (s.put i { c with pc := pc }) channel = charge s channel := by
  have hbalance := countP_set_balance (p := watched channel) { c with pc := pc } h
  have hsame : watched channel { c with pc := pc } = watched channel c := by
    simp [watched, hpc, hpc']
  have hcount : (s.consumers.set i { c with pc := pc }).countP (watched channel) =
      s.consumers.countP (watched channel) := by
    rw [hsame] at hbalance
    omega
  unfold charge Backend.put
  rw [hcount]

theorem Keeps.refl (s : Backend) : Keeps s s := ⟨rfl, fun _ => rfl, id⟩

/-- What else a step changes does not matter. -/
theorem Keeps.congr {u : Backend} (h : Keeps s u) (hconsumers : t.consumers = u.consumers)
    (hretries : t.retries = u.retries) (hevent : t.shutdownEvent = u.shutdownEvent) :
    Keeps s t where
  consumers := by rw [hconsumers, h.consumers]
  charge channel := by
    rw [← h.charge channel]
    unfold ConsumerSupervision.charge
    rw [hconsumers, hretries]
  event hs := by rw [hevent, h.event hs]

theorem keeps_put {pc : Pc} (h : s.consumers[i]? = some c) (hpc : c.pc ≠ .reaped)
    (hpc' : pc ≠ .reaped) :
    Keeps s (s.put i { c with pc := pc }) where
  consumers := List.length_set
  charge := charge_put h hpc hpc'
  event := id

theorem loopPc_ne (s : Backend) : s.loopPc ≠ .reaped := by
  unfold Backend.loopPc
  split <;> decide

theorem keeps_passes (value : Nat) (h : s.consumers[i]? = some c) (hpc : c.pc ≠ .reaped)
    (hpasses : Passes { s with value := value } i c t) : Keeps s t := by
  cases hpasses with
  | creates hfree => exact (keeps_put h hpc (loopPc_ne s)).congr rfl rfl rfl
  | fails hfree => exact (keeps_put h hpc (loopPc_ne s)).congr rfl rfl rfl
  | waits hcalled => exact (keeps_put h hpc (by decide)).congr rfl rfl rfl

/-- What the helpers do leaves the charges alone. -/
theorem keeps_help (k : Nat) (h : Helper) : Keeps s (s.help k h) where
  consumers := List.length_modify _ _ _
  charge channel := by
    have hcount : ∀ (consumers : List Consumer) (i : Nat),
        (consumers.modify i fun c => { c with registered := h.adds }).countP (watched channel) =
          consumers.countP (watched channel) := by
      intro consumers
      induction consumers with
      | nil => simp
      | cons c rest ih =>
        intro i
        cases i with
        | zero => simp [List.countP_cons, watched]
        | succ i => simpa [List.countP_cons] using ih i
    unfold ConsumerSupervision.charge Backend.help
    rw [hcount]
  event := id

/-- A step keeps what is live and pending, or runs the callback of an ended task, or wakes a
restart. -/
theorem supervised_cases (h : Supervised s t) :
    Keeps s t ∨ (∃ i c, s.consumers[i]? = some c ∧ c.pc = .ended ∧ t = s.reap i c) ∨
      ∃ channel before after, s.retries = before ++ channel :: after ∧
        t = s.retry channel (before ++ after) := by
  cases h with
  | ends h hlive =>
    exact .inl (keeps_put h (by rintro heq; rw [heq] at hlive; cases hlive) (by decide))
  | step hstep =>
    cases hstep with
    | sets => exact .inl ⟨rfl, fun _ => rfl, fun _ => rfl⟩
    | loops h hpc =>
      exact .inl (keeps_put h (by obtain hpc | hpc := hpc <;> simp [hpc]) (loopPc_ne s))
    | raises h hpc =>
      exact .inl (keeps_put h (by obtain hpc | hpc := hpc <;> simp [hpc]) (by decide))
    | receives h hpc hvalue hfirst hpasses => exact .inl (keeps_passes _ h (by simp [hpc]) hpasses)
    | queues h hpc hlocked => exact .inl (keeps_put h (by simp [hpc]) (by decide))
    | wakes h hpc hvalue =>
      exact .inl ((keeps_put h (by simp [hpc])
        (by decide : Pc.granted ≠ .reaped)).congr rfl rfl rfl)
    | resumes h hpc hpasses => exact .inl (keeps_passes s.value h (by simp [hpc]) hpasses)
    | enters h hpc hfree ht =>
      have hput := keeps_put h (by simp [hpc]) (loopPc_ne s)
      obtain rfl | rfl := ht
      · exact .inl (hput.congr rfl rfl rfl)
      · exact .inl (hput.congr rfl rfl rfl)
    | cancels h hpc =>
      exact .inl (keeps_put h (by obtain hpc | hpc | hpc := hpc <;> simp [hpc]) (by decide))
    | cancelsGranted h hpc =>
      exact .inl ((keeps_put h (by simp [hpc]) (by decide : Pc.ended ≠ .reaped)).congr rfl rfl rfl)
    | cancelsAtLock h hpc => exact .inl (keeps_put h (by simp [hpc]) (by decide))
    | reaps h hpc => exact .inr (.inl ⟨_, _, h, hpc, rfl⟩)
    | starts h hpc => exact .inl ((Keeps.refl s).congr rfl rfl rfl)
    | finishes h hpc => exact .inl ((Keeps.refl s).congr rfl rfl rfl)
    | cancelsUnstarted h hpc => exact .inl ((Keeps.refl s).congr rfl rfl rfl)
    | discards h hpc => exact .inl ((Keeps.refl s).congr rfl rfl rfl)
    | helps hk hpending hfree => exact .inl (keeps_help _ _)
    | retries h => exact .inr (.inr ⟨_, _, _, h, rfl⟩)
    | shuts hset hidle => exact .inl ((Keeps.refl s).congr rfl rfl rfl)
    | gathers h hconsumers hmessages => exact .inl ((Keeps.refl s).congr rfl rfl rfl)
    | closes h => exact .inl ((Keeps.refl s).congr rfl rfl rfl)

/-- The callback takes the ended task off and, before the shutdown, puts a restart in its place. -/
theorem charge_reap (h : s.consumers[i]? = some c) (hpc : c.pc = .ended) (channel : Channel) :
    charge (s.reap i c) channel + (if s.shutdownEvent ∧ c.channel = channel then 1 else 0) =
      charge s channel := by
  have hbalance := countP_set_balance (p := watched channel) { c with pc := .reaped } h
  have hnew : watched channel { c with pc := .reaped } = false := by simp [watched]
  have hold : watched channel c = decide (c.channel = channel) := by simp [watched, hpc]
  rw [hnew, hold, Bool.toNat_false] at hbalance
  have hcharge :
      charge (s.reap i c) channel =
      (s.consumers.set i { c with pc := .reaped }).countP (watched channel) +
      (if s.shutdownEvent then s.retries else s.retries ++ [c.channel]).count channel := rfl
  rw [hcharge]
  unfold charge
  cases hevent : s.shutdownEvent with
  | true =>
    by_cases hown : c.channel = channel
    · simp [hown] at hbalance ⊢
      omega
    · simp [hown] at hbalance ⊢
      omega
  | false =>
    by_cases hown : c.channel = channel
    · simp [hown] at hbalance ⊢
      omega
    · simp [hown] at hbalance ⊢
      omega

/-- A restart that wakes before the shutdown becomes the new consumer. -/
theorem charge_retry {own : Channel} {before after : List Channel}
    (h : s.retries = before ++ own :: after)
    (channel : Channel) :
    charge (s.retry own (before ++ after)) channel + (if s.shutdownEvent ∧
      own = channel then 1 else 0) =
      charge s channel := by
  unfold Backend.retry charge
  rw [h]
  cases hevent : s.shutdownEvent with
  | true =>
    by_cases hown : own = channel
    · simp [hown]
      omega
    · simp [hown]
  | false =>
    by_cases hown : own = channel
    · simp [Backend.setup, watched, hown]
      omega
    · simp [Backend.setup, watched, hown]

/-- No step adds to a channel, and before the shutdown none takes from it. -/
theorem charge_step (h : Supervised s t) (channel : Channel) :
    charge t channel ≤ charge s channel ∧
      (s.shutdownEvent = false → charge t channel = charge s channel) ∧
      (s.shutdownEvent = true →
        t.shutdownEvent = true ∧ t.consumers.length = s.consumers.length) := by
  obtain hkeeps | ⟨i, c, hc, hpc, rfl⟩ | ⟨own, before, after, hretries, rfl⟩ := supervised_cases h
  · exact ⟨Nat.le_of_eq (hkeeps.charge channel), fun _ => hkeeps.charge channel,
      fun hs => ⟨hkeeps.event hs, hkeeps.consumers⟩⟩
  · have hcharge := charge_reap hc hpc channel
    refine ⟨by omega, ?_, ?_⟩
    · intro hevent
      simpa [hevent] using hcharge
    · intro hevent
      exact ⟨hevent, List.length_set⟩
  · have hcharge := charge_retry hretries channel
    refine ⟨by omega, ?_, ?_⟩
    · intro hevent
      simpa [hevent] using hcharge
    · intro hevent
      simp [Backend.retry, hevent]

theorem charge_configure (maxConcurrentTasks : Nat) (channel : Channel) :
    charge (.configure maxConcurrentTasks) channel = 1 := by
  cases channel <;> rfl

/-- At most one is in charge of a channel, and exactly one until the shutdown. -/
theorem charge_reachable {maxConcurrentTasks : Nat} (h : Reachable maxConcurrentTasks s)
    (channel : Channel) :
    charge s channel ≤ 1 ∧ (s.shutdownEvent = false → charge s channel = 1) := by
  induction h with
  | refl =>
    have hone := charge_configure maxConcurrentTasks channel
    exact ⟨Nat.le_of_eq hone, fun _ => hone⟩
  | @tail s t _ hstep ih =>
    obtain ⟨hle, hsame, hset⟩ := charge_step hstep channel
    refine ⟨Nat.le_trans hle ih.1, ?_⟩
    intro ht
    have hs : s.shutdownEvent = false := by
      cases hevent : s.shutdownEvent with
      | false => rfl
      | true =>
        rw [(hset hevent).1] at ht
        cases ht
    rw [hsame hs, ih.2 hs]

/-- Once the shutdown event is set there is no new consumer. -/
theorem consumers_of_shutdown (hs : s.shutdownEvent = true)
    (h : Relation.ReflTransGen Supervised s t) :
    t.shutdownEvent = true ∧ t.consumers.length = s.consumers.length := by
  induction h with
  | refl => exact ⟨hs, rfl⟩
  | tail _ hstep ih =>
    obtain ⟨-, -, hset⟩ := charge_step hstep .send
    exact ⟨(hset ih.1).1, (hset ih.1).2.trans ih.2⟩

/-- Before the shutdown each channel has one live consumer and no pending restart, or none and
one; it never has two live ones; and after the shutdown no consumer is made. -/
theorem consumers_supervised (maxConcurrentTasks : Nat) (s : Backend)
    (h : Reachable maxConcurrentTasks s) :
    (s.shutdownEvent = false → ∀ channel,
      (liveConsumers s channel = 1 ∧ pendingRestarts s channel = 0) ∨
        (liveConsumers s channel = 0 ∧ pendingRestarts s channel = 1)) ∧
      (∀ channel, liveConsumers s channel ≤ 1) ∧
      (s.shutdownEvent = true → ∀ t, Relation.ReflTransGen Supervised s t →
        t.consumers.length = s.consumers.length) := by
  refine ⟨?_, ?_, ?_⟩
  · intro hevent channel
    have hone := (charge_reachable h channel).2 hevent
    rw [charge_eq] at hone
    omega
  · intro channel
    have hle := (charge_reachable h channel).1
    rw [charge_eq] at hle
    omega
  · intro hevent t ht
    exact (consumers_of_shutdown hevent ht).2

/-- The send consumer ends and its callback runs: its restart waits. -/
theorem consumers_supervised_ended :
    ∃ s, Reachable 1 s ∧ s.shutdownEvent = false ∧ liveConsumers s .send = 0 ∧
      pendingRestarts s .send = 1 ∧
      liveConsumers s .broadcast = 1 := by
  have hends : Reachable 1 ((Backend.configure 1).put 0 { channel := .send, pc := .ended }) :=
    .single (.ends (i := 0) (c := { channel := .send }) rfl rfl)
  have hreaps :=
    hends.tail (.step (Step.reaps (i := 0) (c := { channel := .send, pc := .ended }) rfl rfl))
  refine ⟨_, hreaps, rfl, rfl, rfl, ?_⟩
  obtain hone | hnone := (consumers_supervised 1 _ hreaps).1 rfl .broadcast
  · exact hone.1
  · exact absurd hnone.1 (by decide)

end Steps

end ConsumerSupervision

import Jararaca.ProcessingSlots

/-!
# The channels of the consumers

`retrieve_channel`, `_establish_channel` and the `setup_consumer` of both kinds of consumers, as
the tasks of `consume` run them. Consumers with one channel id share one channel, and one lock
guards every channel id. The channels are not robust ones: the broker may close a channel at any
time, does so where a queue is declared passively that is missing, and no closed channel comes
back.
-/
namespace ConsumerChannels

open ProcessingSlots

/-- What an await raises, as the two lists of `retry_exceptions` tell it apart: what is below
AMQPChannelError or AMQPConnectionError, any other AMQPError, any other ConnectionError, the
rest. -/
inductive Raised where
  | channelOrConnection
  | amqpError
  | connectionError
  | other
  deriving DecidableEq, Repr

/-- `retry_exceptions` of `retrieve_channel`. -/
def Raised.opensAgain : Raised → Bool
  | .channelOrConnection | .connectionError => true
  | .amqpError | .other => false

/-- `retry_exceptions` of the two set ups. -/
def Raised.setsUpAgain : Raised → Bool
  | .channelOrConnection | .amqpError => true
  | .connectionError | .other => false

/-- Where the set up of a consumer stands; it holds the lock from `opening` to `settingQos`, and
waits for `shutdown_event` when `consuming`. -/
inductive Pc where
  | entering
  | opening
  | settingQos (channel : Nat)
  | looking (channel : Nat)
  | subscribing (channel : Nat)
  | consuming (channel : Nat)
  | ended (success : Bool)
  deriving DecidableEq, Repr

namespace Pc

def holds : Pc → Bool
  | .opening | .settingQos _ => true
  | _ => false

def sets : Pc → Option Nat
  | .settingQos channel => some channel
  | _ => none

/-- The channel that `retrieve_channel` returned. -/
def uses : Pc → Option Nat
  | .looking channel | .subscribing channel | .consuming channel => some channel
  | _ => none

theorem sets_of_holds {pc : Pc} (h : pc.holds = false) : pc.sets = none := by
  cases pc <;> simp_all [holds, sets]

end Pc

/-- Channels are numbered as they are opened. `abandoned` are those whose `set_qos` raised: they
are kept nowhere. -/
structure Worker (ι : Type) where
  pc : ι → Pc := fun _ => .entering
  setupFailures : ι → Nat := fun _ => 0
  openFailures : Nat := 0
  retrieveChannelLock : Option ι := none
  channels : String → Option Nat := fun _ => none
  opened : Nat := 0
  closed : Nat → Bool := fun _ => false
  abandoned : List Nat := []
  connected : Bool := true
  shutdownEvent : Bool := false

variable {ι : Type}

namespace Worker

def close (w : Worker ι) (channel : Nat) : Worker ι :=
  { w with closed := Function.update w.closed channel true }

def isOpen (w : Worker ι) (channel : Nat) : Prop := channel < w.opened ∧ w.closed channel = false

/-- Deliveries reach the consumer. -/
def Receives (w : Worker ι) (i : ι) : Prop := ∃ n, w.pc i = .consuming n ∧ w.isOpen n

section Close

variable (w : Worker ι) (n : Nat)

@[simp] theorem close_pc : (w.close n).pc = w.pc := rfl
@[simp] theorem close_setupFailures : (w.close n).setupFailures = w.setupFailures := rfl
@[simp] theorem close_opened : (w.close n).opened = w.opened := rfl

@[simp] theorem close_closed (m : Nat) : (w.close n).closed m = if m = n then true
    else w.closed m := by
  simp [close, Function.update_apply]

end Close

variable [DecidableEq ι]

def goto (w : Worker ι) (i : ι) (pc : Pc) : Worker ι := { w with pc := Function.update w.pc i pc }

/-- An attempt of `setup_consumer` raised, outside of the lock. -/
def setupRaises (w : Worker ι) (maxRetries : Nat) (i : ι) (e : Raised) : Worker ι :=
  if e.setsUpAgain && w.setupFailures i < maxRetries then
    { w with
      setupFailures := Function.update w.setupFailures i (w.setupFailures i + 1) }.goto i .entering
  else w.goto i (.ended false)

/-- An attempt of `_establish_channel` raised; its last one lets go of the lock. -/
def openRaises (w : Worker ι) (maxRetries : Nat) (i : ι) (e : Raised) : Worker ι :=
  if e.opensAgain && w.openFailures < maxRetries then
    { w with openFailures := w.openFailures + 1 }.goto i .opening
  else { w with retrieveChannelLock := none }.setupRaises maxRetries i e

section Fields

variable (w : Worker ι) (i j : ι) (pc : Pc)

@[simp] theorem goto_pc : (w.goto i pc).pc j = if j = i then pc else w.pc j := by
  simp [goto, Function.update_apply]

@[simp] theorem goto_setupFailures : (w.goto i pc).setupFailures = w.setupFailures := rfl
@[simp] theorem goto_lock : (w.goto i pc).retrieveChannelLock = w.retrieveChannelLock := rfl
@[simp] theorem goto_channels : (w.goto i pc).channels = w.channels := rfl
@[simp] theorem goto_opened : (w.goto i pc).opened = w.opened := rfl
@[simp] theorem goto_closed : (w.goto i pc).closed = w.closed := rfl
@[simp] theorem goto_abandoned : (w.goto i pc).abandoned = w.abandoned := rfl
end Fields

end Worker

inductive Event (ι : Type) where
  | proceeds (i : ι)
  | raises (i : ι)
  | missing (i : ι)
  | outside
  deriving DecidableEq

variable (config : WorkerConfig) (maxRetries : Nat) (callback : ι → Callback)

def idOf (i : ι) : String := (callback i).channelId config

variable [DecidableEq ι]

/-- A set up goes from one await to the next, or the broker or a signal comes in. The delays of the
retries are part of the waits that follow them. -/
inductive Step : Event ι → Worker ι → Worker ι → Prop where
  | reuses {w i n} (hpc : w.pc i = .entering) (hlock : w.retrieveChannelLock = none)
      (hfound : w.channels (idOf config callback i) = some n) (hopen : w.closed n = false) :
      Step (.proceeds i) w (w.goto i (.looking n))
  | enters {w i} (hpc : w.pc i = .entering) (hlock : w.retrieveChannelLock = none)
      (hnone : ∀ n, w.channels (idOf config callback i) = some n → w.closed n = true) :
      Step (.proceeds i) w
        ({ w with retrieveChannelLock := some i, openFailures := 0 }.goto i .opening)
  -- a closed connection is a RuntimeError before the broker is asked
  | unavailable {w i} (hpc : w.pc i = .opening) (hconnected : w.connected = false) :
      Step (.raises i) w (w.openRaises maxRetries i .other)
  | openRaises {w i} (e : Raised) (hpc : w.pc i = .opening) (hconnected : w.connected = true) :
      Step (.raises i) w (w.openRaises maxRetries i e)
  | opens {w i} (hpc : w.pc i = .opening) (hconnected : w.connected = true) :
      Step (.proceeds i) w ({ w with opened := w.opened + 1 }.goto i (.settingQos w.opened))
  | qosRaises {w i n} (e : Raised) (hpc : w.pc i = .settingQos n) :
      Step (.raises i) w
        (({ w with abandoned := n :: w.abandoned }.goto i .opening).openRaises maxRetries i e)
  | records {w i n} (hpc : w.pc i = .settingQos n) :
      Step (.proceeds i) w
        ({ w with
            channels := Function.update w.channels (idOf config callback i) (some n)
            retrieveChannelLock := none }.goto i (.looking n))
  | finds {w i n} (hpc : w.pc i = .looking n) (hopen : w.closed n = false) :
      Step (.proceeds i) w (w.goto i (.subscribing n))
  -- a passive declaration of a queue that does not exist closes its channel
  | missing {w i n} (hpc : w.pc i = .looking n) (hopen : w.closed n = false) :
      Step (.missing i) w ((w.close n).setupRaises maxRetries i .channelOrConnection)
  | lookRaises {w i n} (e : Raised) (hpc : w.pc i = .looking n) :
      Step (.raises i) w (w.setupRaises maxRetries i e)
  | subscribes {w i n} (hpc : w.pc i = .subscribing n) (hopen : w.closed n = false) :
      Step (.proceeds i) w (w.goto i (.consuming n))
  | subscribeRaises {w i n} (e : Raised) (hpc : w.pc i = .subscribing n) :
      Step (.raises i) w (w.setupRaises maxRetries i e)
  | stops {w i n} (hpc : w.pc i = .consuming n) (hshutdown : w.shutdownEvent = true) :
      Step (.proceeds i) w (w.goto i (.ended true))
  | closes {w n} (hopened : n < w.opened) : Step .outside w (w.close n)
  | disconnects {w} : Step .outside w
      { w with connected := false, closed := fun n => w.closed n || decide (n < w.opened) }
  | shutdown {w} : Step .outside w { w with shutdownEvent := true }

/-- What happens from one state of the worker to another, in order. -/
inductive Run : Worker ι → List (Event ι) → Worker ι → Prop where
  | nil (w : Worker ι) : Run w [] w
  | snoc {w w' w'' : Worker ι} {events : List (Event ι)} {e : Event ι} (hrun : Run w events w')
      (hstep : Step config maxRetries callback e w' w'') : Run w (events ++ [e]) w''

def Reachable (w : Worker ι) : Prop := ∃ events, Run config maxRetries callback {} events w

/-! ## Who has which channel -/

structure Inv (w : Worker ι) : Prop where
  lock : ∀ i, w.retrieveChannelLock = some i ↔ (w.pc i).holds = true
  recorded : ∀ c n, w.channels c = some n → n < w.opened ∧ n ∉ w.abandoned
  distinct : ∀ c d n, w.channels c = some n → w.channels d = some n → c = d
  used : ∀ i n, (w.pc i).uses = some n →
    w.closed n = true ∨ w.channels (idOf config callback i) = some n
  setting : ∀ i n, (w.pc i).sets = some n →
    n < w.opened ∧ (∀ c, w.channels c ≠ some n) ∧ n ∉ w.abandoned
  replaced : ∀ i, (w.pc i).holds = true → ∀ n, w.channels (idOf config callback i) = some n →
    w.closed n = true
  abandoned : ∀ n ∈ w.abandoned, n < w.opened
  accounted : ∀ n, w.isOpen n → (∃ c, w.channels c = some n) ∨ (∃ i, (w.pc i).sets = some n) ∨
    n ∈ w.abandoned

variable {config : WorkerConfig} {maxRetries : Nat} {callback : ι → Callback}
  {w w' t : Worker ι} {i j : ι}

omit [DecidableEq ι] in
/-- The initial worker has no channel, and nobody holds the lock. -/
theorem inv_init : Inv config callback ({} : Worker ι) := by
  constructor <;> simp [Pc.holds, Pc.uses, Pc.sets, Worker.isOpen]

omit [DecidableEq ι] in
/-- Only one consumer is inside the lock. -/
theorem Inv.others (h : Inv config callback w) (hi : (w.pc i).holds = true) (j : ι) (hj : j ≠ i) :
    (w.pc j).holds = false := by
  rw [Bool.eq_false_iff]
  intro hholds
  exact hj (Option.some.inj (((h.lock j).mpr hholds).symm.trans ((h.lock i).mpr hi)))

/-- The set up of `i` goes on without the lock. -/
theorem inv_goto (h : Inv config callback w) {pc : Pc} (hholds : (w.pc i).holds = false)
    (hholds' : pc.holds = false)
    (huses : ∀ n, pc.uses = some n →
      (w.pc i).uses = some n ∨ w.channels (idOf config callback i) = some n) :
    Inv config callback (w.goto i pc) := by
  refine ⟨?_, h.recorded, h.distinct, ?_, ?_, ?_, h.abandoned, ?_⟩
  · intro j
    by_cases hj : j = i
    · subst hj
      simpa [hholds', hholds] using h.lock j
    · simpa [hj] using h.lock j
  · intro j n hn
    by_cases hj : j = i
    · subst hj
      rw [Worker.goto_pc, if_pos rfl] at hn
      exact (huses n hn).elim (h.used j n) .inr
    · exact h.used j n (by simpa [hj] using hn)
  · intro j n hn
    by_cases hj : j = i
    · simp [hj, Pc.sets_of_holds hholds'] at hn
    · exact h.setting j n (by simpa [hj] using hn)
  · intro j hn
    by_cases hj : j = i
    · simp [hj, hholds'] at hn
    · exact h.replaced j (by simpa [hj] using hn)
  · intro n hn
    obtain hc | ⟨j, hj⟩ | ha := h.accounted n hn
    · exact .inl hc
    · refine .inr (.inl ⟨j, ?_⟩)
      have hne : j ≠ i := fun he => by simp [he ▸ Pc.sets_of_holds hholds] at hj
      simpa [hne] using hj
    · exact .inr (.inr ha)

omit [DecidableEq ι] in
/-- Channels are closed. -/
theorem inv_closed (h : Inv config callback w) {closed : Nat → Bool}
    (hclosed : ∀ n, w.closed n = true → closed n = true)
    (connected : Bool) :
    Inv config callback { w with closed := closed, connected := connected } := by
  refine ⟨h.lock, h.recorded, h.distinct,
    fun j n hn => (h.used j n hn).imp (hclosed n) id, h.setting,
    fun j hj n hn => hclosed n (h.replaced j hj n hn), h.abandoned, fun n hn =>
      h.accounted n ⟨hn.1, ?_⟩⟩
  cases hc : w.closed n with
  | false => rfl
  | true => exact absurd (hclosed n hc) (by simpa using hn.2)

omit [DecidableEq ι] in
theorem inv_close (h : Inv config callback w) (n : Nat) : Inv config callback (w.close n) :=
  inv_closed h (fun m hm => by simp [Function.update_apply, hm]) w.connected

theorem setupRaises_eq (w : Worker ι) (maxRetries : Nat) (i : ι) (e : Raised) :
    ∃ failures pc, (pc = .entering ∨ pc = .ended false) ∧
      w.setupRaises maxRetries i e = { w with setupFailures := failures }.goto i pc := by
  unfold Worker.setupRaises
  split
  · exact ⟨_, .entering, .inl rfl, rfl⟩
  · exact ⟨w.setupFailures, .ended false, .inr rfl, rfl⟩

omit [DecidableEq ι] in
theorem inv_setupFailures (h : Inv config callback w) (failures : ι → Nat) :
    Inv config callback { w with setupFailures := failures } :=
  ⟨h.lock, h.recorded, h.distinct, h.used, h.setting, h.replaced, h.abandoned, h.accounted⟩

theorem inv_setupRaises (h : Inv config callback w) (hholds : (w.pc i).holds = false) (e : Raised) :
    Inv config callback (w.setupRaises maxRetries i e) := by
  obtain ⟨failures, pc, hpc, heq⟩ := setupRaises_eq w maxRetries i e
  rw [heq]
  refine inv_goto (inv_setupFailures h failures) hholds ?_ ?_ <;>
    obtain rfl | rfl := hpc <;> simp [Pc.holds, Pc.uses]

/-- The lock is let go, and what was to be opened is not. -/
theorem inv_release (h : Inv config callback w) (hpc : w.pc i = .opening) :
    Inv config callback ({ w with retrieveChannelLock := none }.goto i .entering) := by
  have hothers := h.others (by simp [hpc, Pc.holds] : (w.pc i).holds = true)
  refine ⟨?_, h.recorded, h.distinct, ?_, ?_, ?_, h.abandoned, ?_⟩
  · intro j
    by_cases hj : j = i
    · simp [hj, Pc.holds]
    · simp [hj, hothers j hj]
  · intro j n hn
    by_cases hj : j = i
    · simp [hj, Pc.uses] at hn
    · exact h.used j n (by simpa [hj] using hn)
  · intro j n hn
    by_cases hj : j = i
    · simp [hj, Pc.sets] at hn
    · exact h.setting j n (by simpa [hj] using hn)
  · intro j hn
    by_cases hj : j = i
    · simp [hj, Pc.holds] at hn
    · exact h.replaced j (by simpa [hj] using hn)
  · intro n hn
    obtain hc | ⟨j, hj⟩ | ha := h.accounted n hn
    · exact .inl hc
    · refine .inr (.inl ⟨j, ?_⟩)
      have hne : j ≠ i := fun he => by simp [he, hpc, Pc.sets] at hj
      simpa [hne] using hj
    · exact .inr (.inr ha)

theorem setupRaises_goto (w : Worker ι) (maxRetries : Nat) (i : ι) (pc : Pc) (e : Raised) :
    (w.goto i pc).setupRaises maxRetries i e = w.setupRaises maxRetries i e := by
  unfold Worker.setupRaises
  rw [Worker.goto_setupFailures]
  split <;> simp [Worker.goto]

theorem inv_openRaises (h : Inv config callback w) (hpc : w.pc i = .opening) (e : Raised) :
    Inv config callback (w.openRaises maxRetries i e) := by
  unfold Worker.openRaises
  split
  · have heq : w.goto i .opening = w := by
      unfold Worker.goto
      rw [← hpc, Function.update_eq_self]
    have h' : Inv config callback (w.goto i .opening) := heq.symm ▸ h
    exact ⟨h'.lock, h'.recorded, h'.distinct, h'.used, h'.setting, h'.replaced, h'.abandoned,
      h'.accounted⟩
  · rw [← setupRaises_goto _ _ _ .entering]
    exact inv_setupRaises (inv_release h hpc) (by simp [Pc.holds]) e

/-- Entering the lock without a usable channel keeps the invariant. -/
theorem inv_enters (h : Inv config callback w) (hpc : w.pc i = .entering)
    (hlock : w.retrieveChannelLock = none)
    (hnone : ∀ n, w.channels (idOf config callback i) = some n → w.closed n = true) :
    Inv config callback
      ({ w with retrieveChannelLock := some i, openFailures := 0 }.goto i .opening) := by
  have hfree : ∀ j, (w.pc j).holds = false := by
    intro j
    rw [Bool.eq_false_iff]
    intro hholds
    simp [(h.lock j).mpr hholds] at hlock
  refine ⟨?_, h.recorded, h.distinct, ?_, ?_, ?_, h.abandoned, ?_⟩
  · intro j
    by_cases hj : j = i
    · simp [hj, Pc.holds]
    · simp [hj, hfree j, Ne.symm hj]
  · intro j n hn
    by_cases hj : j = i
    · simp [hj, Pc.uses] at hn
    · exact h.used j n (by simpa [hj] using hn)
  · intro j n hn
    by_cases hj : j = i
    · simp [hj, Pc.sets] at hn
    · exact h.setting j n (by simpa [hj] using hn)
  · intro j hholds
    by_cases hj : j = i
    · exact hj ▸ hnone
    · simp [hj, hfree j] at hholds
  · intro n hn
    obtain hc | ⟨j, hj⟩ | ha := h.accounted n hn
    · exact .inl hc
    · refine .inr (.inl ⟨j, ?_⟩)
      have hne : j ≠ i := fun he => by simp [he, hpc, Pc.sets] at hj
      simpa [hne] using hj
    · exact .inr (.inr ha)

/-- Opening keeps the invariant: the new channel is recorded for nobody yet. -/
theorem inv_opens (h : Inv config callback w) (hpc : w.pc i = .opening) :
    Inv config callback ({ w with opened := w.opened + 1 }.goto i (.settingQos w.opened)) := by
  refine ⟨?_, ?_, h.distinct, ?_, ?_, ?_, ?_, ?_⟩
  · intro j
    have hj := h.lock j
    by_cases he : j = i
    · subst he
      simpa [hpc, Pc.holds] using hj
    · simpa [he] using hj
  · exact fun c n hn => ⟨Nat.lt_succ_of_lt (h.recorded c n hn).1, (h.recorded c n hn).2⟩
  · intro j n hn
    by_cases hj : j = i
    · simp [hj, Pc.uses] at hn
    · exact h.used j n (by simpa [hj] using hn)
  · intro j n hn
    by_cases hj : j = i
    · obtain rfl : w.opened = n := by simpa [hj, Pc.sets] using hn
      exact ⟨Nat.lt_succ_self _, fun c hc => absurd (h.recorded c _ hc).1 (lt_irrefl _),
        fun ha => absurd (h.abandoned _ ha) (lt_irrefl _)⟩
    · obtain ⟨hlt, hrest⟩ := h.setting j n (by simpa [hj] using hn)
      exact ⟨Nat.lt_succ_of_lt hlt, hrest⟩
  · intro j hn
    by_cases hj : j = i
    · exact hj ▸ h.replaced i (by simp [hpc, Pc.holds])
    · exact h.replaced j (by simpa [hj] using hn)
  · exact fun n hn => Nat.lt_succ_of_lt (h.abandoned n hn)
  · rintro n ⟨hlt, hopen⟩
    obtain hlt | rfl := Nat.lt_succ_iff_lt_or_eq.mp hlt
    · obtain hc | ⟨j, hj⟩ | ha := h.accounted n ⟨hlt, hopen⟩
      · exact .inl hc
      · refine .inr (.inl ⟨j, ?_⟩)
        have hne : j ≠ i := fun he => by simp [he, hpc, Pc.sets] at hj
        simpa [hne] using hj
      · exact .inr (.inr ha)
    · exact .inr (.inl ⟨i, by simp [Pc.sets]⟩)

/-- A channel whose settings fail is abandoned, and no consumer uses it. -/
theorem inv_abandons {n : Nat} (h : Inv config callback w) (hpc : w.pc i = .settingQos n) :
    Inv config callback ({ w with abandoned := n :: w.abandoned }.goto i .opening) := by
  obtain ⟨hlt, hfree, _⟩ := h.setting i n (by simp [hpc, Pc.sets])
  have hholds : (w.pc i).holds = true := by simp [hpc, Pc.holds]
  have hothers := h.others hholds
  refine ⟨?_, ?_, h.distinct, ?_, ?_, ?_, ?_, ?_⟩
  · intro j
    by_cases hj : j = i
    · simp [hj, (h.lock i).mpr hholds, Pc.holds]
    · simpa [hj] using h.lock j
  · intro c m hm
    refine ⟨(h.recorded c m hm).1, ?_⟩
    rw [Worker.goto_abandoned, List.mem_cons, not_or]
    exact ⟨fun he => hfree c (he ▸ hm), (h.recorded c m hm).2⟩
  · intro j m hm
    by_cases hj : j = i
    · simp [hj, Pc.uses] at hm
    · exact h.used j m (by simpa [hj] using hm)
  · intro j m hm
    by_cases hj : j = i
    · simp [hj, Pc.sets] at hm
    · simp [hj, Pc.sets_of_holds (hothers j hj)] at hm
  · intro j hn
    by_cases hj : j = i
    · exact hj ▸ h.replaced i (by simp [hpc, Pc.holds])
    · exact h.replaced j (by simpa [hj] using hn)
  · intro m hm
    obtain rfl | hm := List.mem_cons.mp hm
    · exact hlt
    · exact h.abandoned m hm
  · intro m hm
    obtain hc | ⟨j, hj⟩ | ha := h.accounted m hm
    · exact .inl hc
    · refine .inr (.inr (List.mem_cons.mpr (.inl ?_)))
      by_cases he : j = i
      · simpa [he, hpc, Pc.sets, eq_comm] using hj
      · simp [Pc.sets_of_holds (hothers j he)] at hj
    · exact .inr (.inr (List.mem_cons_of_mem _ ha))

/-- The recorded channel replaces a closed one, so each id has at most one open channel. -/
theorem inv_records {n : Nat} (h : Inv config callback w) (hpc : w.pc i = .settingQos n) :
    Inv config callback
      ({ w with
          channels := Function.update w.channels (idOf config callback i) (some n)
          retrieveChannelLock := none }.goto i (.looking n)) := by
  obtain ⟨hlt, hfree, habandoned⟩ := h.setting i n (by simp [hpc, Pc.sets])
  have hholds : (w.pc i).holds = true := by simp [hpc, Pc.holds]
  have hreplaced := h.replaced i hholds
  have hothers := h.others hholds
  have hnew : ∀ c m, Function.update w.channels (idOf config callback i) (some n) c = some m →
      (c = idOf config callback i ∧ m = n) ∨
        (c ≠ idOf config callback i ∧ w.channels c = some m) := by
    intro c m hm
    by_cases hc : c = idOf config callback i
    · subst hc
      exact .inl ⟨rfl, by simpa [eq_comm] using hm⟩
    · exact .inr ⟨hc, by simpa [hc] using hm⟩
  refine ⟨?_, ?_, ?_, ?_, ?_, ?_, h.abandoned, ?_⟩
  · intro j
    by_cases hj : j = i
    · simp [hj, Pc.holds]
    · simp [hj, hothers j hj]
  · intro c m hm
    obtain ⟨_, rfl⟩ | ⟨_, hm⟩ := hnew c m hm
    · exact ⟨hlt, habandoned⟩
    · exact h.recorded c m hm
  · intro c d m hc hd
    obtain ⟨rfl, rfl⟩ | ⟨hcne, hc⟩ := hnew c m hc <;> obtain ⟨rfl, hmn⟩ | ⟨hdne, hd⟩ := hnew d m hd
    · rfl
    · exact absurd hd (hfree d)
    · exact absurd (hmn ▸ hc) (hfree c)
    · exact h.distinct c d m hc hd
  · intro j m hm
    by_cases hj : j = i
    · subst hj
      refine .inr ?_
      simpa [Pc.uses] using hm
    · obtain hclosed | hchannel := h.used j m (by simpa [hj] using hm)
      · exact .inl hclosed
      · by_cases hid : idOf config callback j = idOf config callback i
        · exact .inl (hreplaced m (hid ▸ hchannel))
        · exact .inr (by simpa [hid] using hchannel)
  · intro j m hm
    by_cases hj : j = i
    · simp [hj, Pc.sets] at hm
    · simp [hj, Pc.sets_of_holds (hothers j hj)] at hm
  · intro j hn
    by_cases hj : j = i
    · simp [hj, Pc.holds] at hn
    · simp [hj, hothers j hj] at hn
  · rintro m ⟨hm, hopen⟩
    obtain ⟨c, hc⟩ | ⟨j, hj⟩ | ha := h.accounted m ⟨hm, hopen⟩
    · refine .inl ⟨c, ?_⟩
      have hne : c ≠ idOf config callback i :=
        fun he => absurd (hreplaced m (he ▸ hc)) (by simpa using hopen)
      simpa [hne] using hc
    · refine .inl ⟨idOf config callback i, ?_⟩
      by_cases he : j = i
      · simpa [he, hpc, Pc.sets] using hj
      · simp [Pc.sets_of_holds (hothers j he)] at hj
    · exact .inr (.inr ha)

/-- Every event keeps the invariant. -/
theorem inv_step {e : Event ι} (h : Inv config callback w)
    (hstep : Step config maxRetries callback e w w') :
    Inv config callback w' := by
  cases hstep with
  | reuses hpc hlock hfound hopen =>
    refine inv_goto h (by simp [hpc, Pc.holds]) rfl fun m hm => .inr ?_
    simpa [Pc.uses, ← hm] using hfound
  | enters hpc hlock hnone => exact inv_enters h hpc hlock hnone
  | unavailable hpc => exact inv_openRaises h hpc _
  | openRaises e hpc => exact inv_openRaises h hpc e
  | opens hpc => exact inv_opens h hpc
  | qosRaises e hpc => exact inv_openRaises (inv_abandons h hpc) (by simp) e
  | records hpc => exact inv_records h hpc
  | finds hpc =>
    exact inv_goto h (by simp [hpc, Pc.holds]) rfl fun m hm =>
      .inl (by simpa [hpc, Pc.uses] using hm)
  | missing hpc => exact inv_setupRaises (inv_close h _) (by simp [hpc, Pc.holds]) _
  | lookRaises e hpc => exact inv_setupRaises h (by simp [hpc, Pc.holds]) e
  | subscribes hpc =>
    exact inv_goto h (by simp [hpc, Pc.holds]) rfl fun m hm =>
      .inl (by simpa [hpc, Pc.uses] using hm)
  | subscribeRaises e hpc => exact inv_setupRaises h (by simp [hpc, Pc.holds]) e
  | stops hpc => exact inv_goto h (by simp [hpc, Pc.holds]) rfl (by simp [Pc.uses])
  | closes => exact inv_close h _
  | disconnects => exact inv_closed h (fun n hn => by simp [hn]) false
  | shutdown =>
    exact ⟨h.lock, h.recorded, h.distinct, h.used, h.setting, h.replaced, h.abandoned, h.accounted⟩

/-- So it holds after every run. -/
theorem inv_run {events : List (Event ι)} (hrun : Run config maxRetries callback w events t)
    (h : Inv config callback w) : Inv config callback t := by
  induction hrun with
  | nil => exact h
  | snoc _ hstep ih => exact inv_step ih hstep

/-- Two consumers that have an open channel have the same one where they have the same channel id,
and there only; an open channel is kept for an id, or is being set up under the lock, or is one
that a failed `set_qos` left behind, which no consumer has. -/
theorem channels_follow_ids (h : Reachable config maxRetries callback w) :
    (∀ i j m n, (w.pc i).uses = some m → (w.pc j).uses = some n → w.isOpen m → w.isOpen n →
      (m = n ↔ idOf config callback i = idOf config callback j)) ∧
    ∀ n, w.isOpen n →
      (∃ c, w.channels c = some n) ∨
        (∃ i, w.retrieveChannelLock = some i ∧ w.pc i = .settingQos n) ∨
        (n ∈ w.abandoned ∧ ∀ i, (w.pc i).uses ≠ some n) := by
  obtain ⟨events, hrun⟩ := h
  have hinv := inv_run hrun inv_init
  have hrecorded :
      ∀ i n, (w.pc i).uses = some n → w.isOpen n → w.channels (idOf config callback i) = some n :=
    fun i n hn hopen => (hinv.used i n hn).resolve_left (by simp [hopen.2])
  refine ⟨fun i j m n hm hn hopenm hopenn => ⟨?_, ?_⟩, ?_⟩
  · rintro rfl
    exact hinv.distinct _ _ m (hrecorded i m hm hopenm) (hrecorded j m hn hopenn)
  · intro hid
    have hi := hrecorded i m hm hopenm
    rw [hid, hrecorded j n hn hopenn] at hi
    exact (Option.some.inj hi).symm
  · intro n hopen
    obtain hc | ⟨i, hi⟩ | ha := hinv.accounted n hopen
    · exact .inl hc
    · refine .inr (.inl ⟨i, ?_⟩)
      have hpc : w.pc i = .settingQos n := by
        cases hp : w.pc i <;> simp_all [Pc.sets]
      exact ⟨(hinv.lock i).mpr (by simp [hpc, Pc.holds]), hpc⟩
    · exact .inr (.inr ⟨ha, fun i hi => (hinv.recorded _ n (hrecorded i n hi hopen)).2 ha⟩)

/-! ## Consumers without a channel -/

/-- A step of the set up of `i`. -/
def Event.isOf (i : ι) : Event ι → Bool
  | .proceeds j | .raises j | .missing j => decide (j = i)
  | .outside => false

/-- A failed set-up closes no channel. -/
theorem setupRaises_closed (w : Worker ι) (e : Raised) :
    (w.setupRaises maxRetries i e).closed = w.closed := by
  obtain ⟨failures, pc, _, heq⟩ := setupRaises_eq w maxRetries i e
  rw [heq]
  rfl

theorem openRaises_closed (w : Worker ι) (e : Raised) :
    (w.openRaises maxRetries i e).closed = w.closed := by
  unfold Worker.openRaises
  split
  · rfl
  · exact setupRaises_closed _ e

/-- A closed channel stays closed. -/
theorem closed_step {e : Event ι} (hstep : Step config maxRetries callback e w w') {n : Nat}
    (hn : w.closed n = true) : w'.closed n = true := by
  cases hstep with
  | unavailable => rwa [openRaises_closed]
  | openRaises => rwa [openRaises_closed]
  | qosRaises => rwa [openRaises_closed]
  | missing => rw [setupRaises_closed]; simp [hn]
  | lookRaises => rwa [setupRaises_closed]
  | subscribeRaises => rwa [setupRaises_closed]
  | closes => simp [hn]
  | disconnects => simp [hn]
  | _ => exact hn

/-- A failed set-up of one consumer does not move another. -/
theorem setupRaises_pc (w : Worker ι) (e : Raised) (hj : j ≠ i) :
    (w.setupRaises maxRetries i e).pc j = w.pc j := by
  obtain ⟨failures, pc, _, heq⟩ := setupRaises_eq w maxRetries i e
  rw [heq]
  simp [hj]

theorem openRaises_pc (w : Worker ι) (e : Raised) (hj : j ≠ i) :
    (w.openRaises maxRetries i e).pc j = w.pc j := by
  unfold Worker.openRaises
  split
  · simp [hj]
  · exact setupRaises_pc _ e hj

/-- A step of another set up, or of the broker, leaves this one where it is. -/
theorem pc_step {e : Event ι} (hstep : Step config maxRetries callback e w w')
    (hj : e.isOf j = false) :
    w'.pc j = w.pc j := by
  cases hstep <;> simp only [Event.isOf, decide_eq_false_iff_not] at hj
  case unavailable => exact openRaises_pc _ _ (Ne.symm hj)
  case openRaises => exact openRaises_pc _ _ (Ne.symm hj)
  case qosRaises => rw [openRaises_pc _ _ (Ne.symm hj)]; simp [Ne.symm hj]
  case missing => rw [setupRaises_pc _ _ (Ne.symm hj)]; rfl
  case lookRaises => exact setupRaises_pc _ _ (Ne.symm hj)
  case subscribeRaises => exact setupRaises_pc _ _ (Ne.symm hj)
  all_goals first | rfl | simp [Ne.symm hj]

/-- The shutdown is never taken back. -/
theorem shutdown_step {e : Event ι} (hstep : Step config maxRetries callback e w w')
    (h : w.shutdownEvent = true) : w'.shutdownEvent = true := by
  have hsetup : ∀ (w : Worker ι) i e,
      (w.setupRaises maxRetries i e).shutdownEvent = w.shutdownEvent := by
    intro w i e
    obtain ⟨failures, pc, _, heq⟩ := setupRaises_eq w maxRetries i e
    rw [heq]
    rfl
  have hopen : ∀ (w : Worker ι) i e,
      (w.openRaises maxRetries i e).shutdownEvent = w.shutdownEvent := by
    intro w i e
    unfold Worker.openRaises
    split
    · rfl
    · exact hsetup _ i e
  cases hstep with
  | unavailable => rwa [hopen]
  | openRaises => rwa [hopen]
  | qosRaises => rwa [hopen]
  | missing => rwa [hsetup]
  | lookRaises => rwa [hsetup]
  | subscribeRaises => rwa [hsetup]
  | shutdown => rfl
  | _ => exact h

/-- The consumer is set up on a channel that is closed, or was stopped by the shutdown. -/
def Deaf (w : Worker ι) (j : ι) (n : Nat) : Prop :=
  (w.pc j = .consuming n ∧ w.closed n = true) ∨ (w.pc j = .ended true ∧ w.shutdownEvent = true)

/-- A consumer whose channel is closed stays deaf: nothing opens that channel again. -/
theorem deaf_step {e : Event ι} {n : Nat} (hstep : Step config maxRetries callback e w w')
    (h : Deaf w j n) :
    Deaf w' j n := by
  by_cases hj : e.isOf j = false
  · have hpc := pc_step hstep hj
    obtain ⟨hc, hclosed⟩ | ⟨he, hshutdown⟩ := h
    · exact .inl ⟨hpc.trans hc, closed_step hstep hclosed⟩
    · exact .inr ⟨hpc.trans he, shutdown_step hstep hshutdown⟩
  -- of its own steps, only the stop is left
  obtain hc | he : w.pc j = .consuming n ∨ w.pc j = .ended true := h.imp And.left And.left
  · cases hstep <;> simp only [Event.isOf, decide_eq_false_iff_not, not_not,
      not_true_eq_false] at hj <;>
      subst hj <;> simp_all
    case stops hshutdown => exact .inr ⟨by simp, hshutdown⟩
  · cases hstep <;> simp only [Event.isOf, decide_eq_false_iff_not, not_not,
      not_true_eq_false] at hj <;>
      subst hj <;> simp_all

/-- It is deaf in every continuation. -/
theorem deaf_run {events : List (Event ι)} {n : Nat}
    (hrun : Run config maxRetries callback w events t)
    (h : Deaf w j n) : Deaf t j n := by
  induction hrun with
  | nil => exact h
  | snoc _ hstep ih => exact deaf_step hstep ih

omit [DecidableEq ι] in
/-- A deaf consumer receives nothing. -/
theorem not_receives_of_deaf {n : Nat} (h : Deaf w j n) : ¬ w.Receives j := by
  rintro ⟨m, hpc, hopen⟩
  obtain ⟨hc, hclosed⟩ | ⟨he, _⟩ := h
  · obtain rfl : m = n := Pc.consuming.inj (hpc.symm.trans hc)
    simp [hopen.2] at hclosed
  · simp [he] at hpc

/-! ## Attempts -/

/-- The attempts of a set up that failed. -/
def failed (w : Worker ι) (i : ι) : Nat :=
  w.setupFailures i + if w.pc i = .ended false then 1 else 0

theorem failed_setupRaises (w : Worker ι) (e : Raised) (hpc : w.pc i ≠ .ended false) :
    failed (w.setupRaises maxRetries i e) i = failed w i + 1 := by
  unfold Worker.setupRaises failed
  rw [if_neg hpc]
  split <;> simp

theorem failed_setupRaises_other (w : Worker ι) (e : Raised) (hj : j ≠ i) :
    failed (w.setupRaises maxRetries i e) j = failed w j := by
  unfold Worker.setupRaises failed
  split <;> simp [hj]

theorem failed_openRaises_other (w : Worker ι) (e : Raised) (hj : j ≠ i) :
    failed (w.openRaises maxRetries i e) j = failed w j := by
  unfold Worker.openRaises
  split
  · simp [failed, hj]
  · rw [failed_setupRaises_other _ _ hj]
    rfl

theorem failed_openRaises (w : Worker ι) (e : Raised) (hpc : w.pc i ≠ .ended false) :
    failed w i ≤ failed (w.openRaises maxRetries i e) i := by
  unfold Worker.openRaises
  split
  · simp [failed, hpc]
  · exact (Nat.le_succ _).trans (failed_setupRaises { w with retrieveChannelLock := none } e hpc).ge

theorem failures_setupRaises (w : Worker ι) (e : Raised) (h : w.setupFailures j ≤ maxRetries) :
    (w.setupRaises maxRetries i e).setupFailures j ≤ maxRetries := by
  unfold Worker.setupRaises
  split
  · rename_i hretries
    by_cases hj : j = i
    · subst hj
      simp only [Bool.and_eq_true, decide_eq_true_eq] at hretries
      simpa using Nat.succ_le_of_lt hretries.2
    · simpa [hj] using h
  · exact h

theorem failures_openRaises (w : Worker ι) (e : Raised) (h : w.setupFailures j ≤ maxRetries) :
    (w.openRaises maxRetries i e).setupFailures j ≤ maxRetries := by
  unfold Worker.openRaises
  split
  · exact h
  · exact failures_setupRaises _ e h

/-- A missing queue takes an attempt, and no step gives one back. -/
theorem failed_step {e : Event ι} (hstep : Step config maxRetries callback e w w') (j : ι) :
    failed w j + (if e = .missing j then 1 else 0) ≤ failed w' j := by
  by_cases hj : e.isOf j = false
  · have hne : e ≠ .missing j := by
      rintro rfl
      simp [Event.isOf] at hj
    rw [if_neg hne, Nat.add_zero]
    cases hstep <;> simp only [Event.isOf, decide_eq_false_iff_not] at hj
    case unavailable => exact (failed_openRaises_other _ _ (Ne.symm hj)).ge
    case openRaises => exact (failed_openRaises_other _ _ (Ne.symm hj)).ge
    case qosRaises =>
      rw [failed_openRaises_other _ _ (Ne.symm hj)]
      simp [failed, Ne.symm hj]
    case missing =>
      rw [failed_setupRaises_other _ _ (Ne.symm hj)]
      exact le_rfl
    case lookRaises => exact (failed_setupRaises_other _ _ (Ne.symm hj)).ge
    case subscribeRaises => exact (failed_setupRaises_other _ _ (Ne.symm hj)).ge
    all_goals first
      | exact le_rfl
      | simp [failed, Ne.symm hj]
  · cases hstep <;> simp only [Event.isOf, decide_eq_false_iff_not, not_not,
      not_true_eq_false] at hj <;> subst hj
    case unavailable hpc _ => simpa using failed_openRaises w _ (by simp [hpc])
    case openRaises hpc _ => simpa using failed_openRaises w _ (by simp [hpc])
    case qosRaises n e hpc =>
      refine le_trans ?_ (failed_openRaises _ e (by simp))
      simp [failed, hpc]
    case missing n hpc _ =>
      rw [failed_setupRaises _ _ (by simp [hpc]), if_pos rfl]
      exact le_rfl
    case lookRaises n e hpc =>
      rw [failed_setupRaises _ e (by simp [hpc])]
      simp
    case subscribeRaises n e hpc =>
      rw [failed_setupRaises _ e (by simp [hpc])]
      simp
    all_goals simp_all [failed]

theorem failures_step {e : Event ι} (hstep : Step config maxRetries callback e w w')
    (h : w.setupFailures j ≤ maxRetries) : w'.setupFailures j ≤ maxRetries := by
  cases hstep with
  | unavailable => exact failures_openRaises w _ h
  | openRaises e => exact failures_openRaises w e h
  | qosRaises e => exact failures_openRaises _ e h
  | missing => exact failures_setupRaises (w.close _) _ h
  | lookRaises e => exact failures_setupRaises w e h
  | subscribeRaises e => exact failures_setupRaises w e h
  | _ => exact h

/-- Every look-up that finds no queue is a failed set up, and there are at most `maxRetries` of
them. -/
theorem missing_run {events : List (Event ι)}
    (hrun : Run config maxRetries callback {} events t) (i : ι) :
    events.count (.missing i) ≤ failed t i ∧ t.setupFailures i ≤ maxRetries := by
  induction hrun with
  | nil => simp
  | snoc _ hstep ih =>
    obtain ⟨hcount, hfailures⟩ := ih
    refine ⟨?_, failures_step hstep hfailures⟩
    have hfailed := failed_step hstep i
    rw [List.count_append, List.count_singleton]
    simp only [beq_iff_eq] at *
    omega

/-- Two runs one after the other are a run. -/
theorem Run.append {events more : List (Event ι)} (h : Run config maxRetries callback w events w')
    (h' : Run config maxRetries callback w' more t) :
    Run config maxRetries callback w (events ++ more) t := by
  induction h' with
  | nil => simpa using h
  | snoc _ hstep ih =>
    rw [← List.append_assoc]
    exact ih.snoc hstep

/-- A queue that is missing takes every consumer that was set up on the same channel id before with
it, for good: until the shutdown that consumer waits on a closed channel. This may happen once for
each attempt of the set up, `max_retries + 1` times in a run. -/
theorem missing_queue_silences {n : Nat} {before after : List (Event ι)}
    (hbefore : Run config maxRetries callback {} before w)
    (hstep : Step config maxRetries callback (.missing i) w w')
    (hafter : Run config maxRetries callback w' after t)
    (hid : idOf config callback j = idOf config callback i) (hpc : w.pc j = .consuming n) :
    ¬ t.Receives j ∧ (t.pc j = .consuming n ∨ t.shutdownEvent = true) ∧
      (before ++ .missing i :: after).count (.missing i) ≤ maxRetries + 1 := by
  have hinv := inv_run hbefore inv_init
  have hdeaf : Deaf w' j n := by
    cases hstep with
    | @missing _ _ m hpci hopen =>
      have hne : j ≠ i := fun he => by simp [he ▸ hpc] at hpci
      refine .inl ⟨by rw [setupRaises_pc _ _ hne]; exact hpc, ?_⟩
      rw [setupRaises_closed, Worker.close_closed]
      obtain hclosed | hchannel := hinv.used j n (by simp [hpc, Pc.uses])
      · simp [hclosed]
      · have hi := (hinv.used i m (by simp [hpci, Pc.uses])).resolve_left (by simp [hopen])
        rw [← hid, hchannel] at hi
        simp [Option.some.inj hi]
  have ht := deaf_run hafter hdeaf
  refine ⟨not_receives_of_deaf ht, ht.imp And.left And.right, ?_⟩
  have hrun := Run.append (hbefore.snoc hstep) hafter
  rw [List.append_assoc] at hrun
  obtain ⟨hcount, hfailures⟩ := missing_run hrun i
  refine hcount.trans ?_
  unfold failed
  split <;> omega

/-! ## A shared channel -/

/-- The default, but for the shared channel. -/
def sharing : WorkerConfig where
  defaultPrefetchCount := 10
  prefetchByChannelId _ := none
  sharedDefaultChannel := true

/-- Two handlers, the second for a queue that was never declared. -/
def mailAndOrders (i : Bool) : Callback :=
  .messageHandler (if i then "orders" else "mail") none

/-- The two set ups stand at these places; the shared channel is the first one, once it is kept. -/
def setUp (mail orders : Pc) (lock : Option Bool) (kept : Option Nat) (opened : Nat) :
    Worker Bool where
  pc i := if i then orders else mail
  retrieveChannelLock := lock
  channels := Function.update (fun _ => none) "default" kept
  opened := opened

theorem setUp_goto_mail (mail orders pc : Pc) (lock : Option Bool) (kept : Option Nat)
    (opened : Nat) :
    (setUp mail orders lock kept opened).goto false pc = setUp pc orders lock kept opened := by
  simp only [setUp, Worker.goto, Worker.mk.injEq, and_true]
  funext i
  cases i <;> rfl

theorem setUp_goto_orders (mail orders pc : Pc) (lock : Option Bool) (kept : Option Nat)
    (opened : Nat) :
    (setUp mail orders lock kept opened).goto true pc = setUp mail pc lock kept opened := by
  simp only [setUp, Worker.goto, Worker.mk.injEq, and_true]
  funext i
  cases i <;> rfl

theorem orders_id (i : Bool) : idOf sharing mailAndOrders i = "default" := rfl

def untilOrdersLook : List (Event Bool) :=
  [.proceeds false, .proceeds false, .proceeds false,
    .proceeds false, .proceeds false, .proceeds true]

theorem mail_is_set_up :
    Run sharing 2 mailAndOrders {} untilOrdersLook
      (setUp (.consuming 0) (.looking 0) none (some 0) 1) := by
  have hstart : setUp .entering .entering none none 0 = {} := by simp [setUp]
  have henters :
      Step sharing 2 mailAndOrders (.proceeds false) (setUp .entering .entering none none 0)
      ((setUp .entering .entering (some false) none 0).goto false .opening) :=
    .enters rfl rfl (by simp [setUp])
  have hopens : Step sharing 2 mailAndOrders (.proceeds false)
    (setUp .opening .entering (some false) none 0)
      ((setUp .opening .entering (some false) none 1).goto false (.settingQos 0)) := .opens rfl rfl
  have hkept : { setUp (.settingQos 0) .entering (some false) none 1 with
      channels := Function.update (setUp (.settingQos 0) .entering (some false) none 1).channels
        (idOf sharing mailAndOrders false) (some 0)
      retrieveChannelLock := none } =
      setUp (.settingQos 0) .entering none (some 0) 1 := by
    simp [setUp, orders_id]
  have hrecords : Step sharing 2 mailAndOrders (.proceeds false)
      (setUp (.settingQos 0) .entering (some false) none 1)
      ((setUp (.settingQos 0) .entering none (some 0) 1).goto false (.looking 0)) := by
    rw [← hkept]
    exact .records rfl
  have hfinds : Step sharing 2 mailAndOrders (.proceeds false)
    (setUp (.looking 0) .entering none (some 0) 1)
      ((setUp (.looking 0) .entering none (some 0) 1).goto false (.subscribing 0)) := .finds rfl rfl
  have hsubscribes : Step sharing 2 mailAndOrders (.proceeds false)
      (setUp (.subscribing 0) .entering none (some 0) 1)
      ((setUp (.subscribing 0) .entering none (some 0) 1).goto false (.consuming 0)) :=
        .subscribes rfl rfl
  have hreuses :
      Step sharing 2 mailAndOrders (.proceeds true) (setUp (.consuming 0) .entering none (some 0) 1)
      ((setUp (.consuming 0) .entering none (some 0) 1).goto true (.looking 0)) :=
        .reuses rfl rfl (by decide) rfl
  rw [setUp_goto_mail] at henters hopens hrecords hfinds hsubscribes
  rw [setUp_goto_orders] at hreuses
  have hopened := ((Run.nil _).snoc henters).snoc hopens
  have hconsuming := ((hopened.snoc hrecords).snoc hfinds).snoc hsubscribes
  exact hstart ▸ hconsuming.snoc hreuses

/-- A queue that is missing silences the consumer on the shared channel. -/
theorem missing_orders_silence_mail : ∃ w' : Worker Bool,
    (setUp (.consuming 0) (.looking 0) none (some 0) 1).Receives false ∧
      Step sharing 2 mailAndOrders (.missing true)
        (setUp (.consuming 0) (.looking 0) none (some 0) 1) w' ∧
      ¬ w'.Receives false ∧ (w'.pc false = .consuming 0 ∨ w'.shutdownEvent = true) ∧
      (untilOrdersLook ++ [Event.missing true]).count (Event.missing true) ≤ 2 + 1 := by
  have hmissing : Step sharing 2 mailAndOrders (.missing true)
    (setUp (.consuming 0) (.looking 0) none (some 0) 1) _ :=
    .missing (n := 0) rfl rfl
  exact ⟨_, ⟨0, rfl, by decide, rfl⟩, hmissing, missing_queue_silences (j :=
    false) mail_is_set_up hmissing (.nil _) rfl rfl⟩

/-- Both set ups of the run above have the one channel. -/
theorem mail_and_orders_share :
    (∀ i j m n, ((setUp (.consuming 0) (.looking 0) none (some 0) 1).pc i).uses = some m →
      ((setUp (.consuming 0) (.looking 0) none (some 0) 1).pc j).uses = some n →
      (setUp (.consuming 0) (.looking 0) none (some 0) 1).isOpen m →
      (setUp (.consuming 0) (.looking 0) none (some 0) 1).isOpen n →
      (m = n ↔ idOf sharing mailAndOrders i = idOf sharing mailAndOrders j)) ∧
    (setUp (.consuming 0) (.looking 0) none (some 0) 1).isOpen 0 :=
  ⟨(channels_follow_ids ⟨_, mail_is_set_up⟩).1, by decide, rfl⟩

end ConsumerChannels

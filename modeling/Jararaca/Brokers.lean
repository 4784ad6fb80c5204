import Mathlib.Logic.Function.Basic
import Jararaca.Programs

/-!
# Brokers

Exchanges and queues by name, each with the arguments it was declared with, and bindings that
join them. To declare what is there with other arguments is refused, and so is to bind or to look
up what is not there. A passive declaration looks up.
-/
namespace Brokers

open Programs

structure Binding where
  exchange : String
  routingKey : String
  queue : String
  deriving DecidableEq, Repr

structure Queue (θ μ : Type) where
  args : θ
  messages : List μ

/-- Exchanges of arguments `ξ`, queues of arguments `θ` with messages `μ`. A binding joins what
is there. -/
@[ext] structure Broker (ξ θ μ : Type) where
  exchange : String → Option ξ
  queue : String → Option (Queue θ μ)
  bindings : List Binding
  bound : ∀ b ∈ bindings, (exchange b.exchange).isSome = true ∧ (queue b.queue).isSome = true

inductive Refusal where
  | notFound
  | preconditionFailed
  deriving DecidableEq, Repr

variable {ξ θ μ : Type}

namespace Broker

variable (s : Broker ξ θ μ)

def empty : Broker ξ θ μ := ⟨fun _ => none, fun _ => none, [], by simp⟩

def queueArgs (name : String) : Option θ := (s.queue name).map Queue.args

theorem isSome_update {τ : Type} {f : String → Option τ} {name : String} (v : τ) (k : String)
    (h : (f k).isSome = true) : (Function.update f name (some v) k).isSome = true := by
  by_cases hk : k = name
  · simp [hk]
  · simp [Function.update_of_ne hk, h]

/-- Declared, unless it is there. -/
def ensureExchange (name : String) (x : ξ) : Broker ξ θ μ where
  exchange := Function.update s.exchange name (some ((s.exchange name).getD x))
  queue := s.queue
  bindings := s.bindings
  bound b hb := ⟨isSome_update _ _ (s.bound b hb).1, (s.bound b hb).2⟩

def ensureQueue (name : String) (args : θ) : Broker ξ θ μ where
  exchange := s.exchange
  queue := Function.update s.queue name (some ((s.queue name).getD ⟨args, []⟩))
  bindings := s.bindings
  bound b hb := ⟨(s.bound b hb).1, isSome_update _ _ (s.bound b hb).2⟩

def ensureBinding (b : Binding)
    (h : (s.exchange b.exchange).isSome = true ∧ (s.queue b.queue).isSome = true) :
    Broker ξ θ μ where
  exchange := s.exchange
  queue := s.queue
  bindings := if b ∈ s.bindings then s.bindings else s.bindings ++ [b]
  bound b' hb' := by
    split at hb'
    · exact s.bound b' hb'
    · obtain hb' | hb' := List.mem_append.mp hb'
      · exact s.bound b' hb'
      · exact List.mem_singleton.mp hb' ▸ h

/-- Gone with the bindings from it. -/
def removeExchange (name : String) : Broker ξ θ μ where
  exchange := Function.update s.exchange name none
  queue := s.queue
  bindings := s.bindings.filter fun b => b.exchange != name
  bound b hb := by
    obtain ⟨hb, hne⟩ := List.mem_filter.mp hb
    have hne : b.exchange ≠ name := by simpa using hne
    rw [Function.update_of_ne hne]
    exact s.bound b hb

/-- Gone with its messages and the bindings to it. -/
def removeQueue (name : String) : Broker ξ θ μ where
  exchange := s.exchange
  queue := Function.update s.queue name none
  bindings := s.bindings.filter fun b => b.queue != name
  bound b hb := by
    obtain ⟨hb, hne⟩ := List.mem_filter.mp hb
    have hne : b.queue ≠ name := by simpa using hne
    rw [Function.update_of_ne hne]
    exact s.bound b hb

end Broker

/-! ## Methods of a channel -/

abbrev Channel (ξ θ μ α : Type) := Prog (Broker ξ θ μ) Refusal α

def declareExchange [DecidableEq ξ] (name : String) (x : ξ) (passive : Bool) :
    Channel ξ θ μ Unit := fun s =>
  match s.exchange name with
  | none => if passive then (.error .notFound, s) else (.ok (), s.ensureExchange name x)
  | some y => if passive || decide (y = x) then (.ok (), s) else (.error .preconditionFailed, s)

def declareQueue [DecidableEq θ] (name : String) (args : θ) (passive : Bool) :
    Channel ξ θ μ Unit := fun s =>
  match s.queueArgs name with
  | none => if passive then (.error .notFound, s) else (.ok (), s.ensureQueue name args)
  | some a => if passive || decide (a = args) then (.ok (), s) else (.error .preconditionFailed, s)

def bindQueue (b : Binding) : Channel ξ θ μ Unit := fun s =>
  if h : (s.exchange b.exchange).isSome = true ∧
    (s.queue b.queue).isSome = true then (.ok (), s.ensureBinding b h)
  else (.error .notFound, s)

/-- To delete what is not there is no error. -/
def deleteExchange (name : String) : Channel ξ θ μ Unit :=
  Prog.modify fun s => s.removeExchange name

def deleteQueue (name : String) : Channel ξ θ μ Unit := Prog.modify fun s => s.removeQueue name

/-! ## What a method does -/

section Specs

variable {s : Broker ξ θ μ} {name : String}

theorem ensureExchange_of_some {x y : ξ} (h : s.exchange name = some y) :
    s.ensureExchange name x = s := by
  ext1
  · funext k
    by_cases hk : k = name
    · subst hk
      simp [Broker.ensureExchange, h]
    · simp [Broker.ensureExchange, Function.update_of_ne hk]
  · rfl
  · rfl

theorem ensureQueue_of_some {args a : θ} (h : s.queueArgs name = some a) :
    s.ensureQueue name args = s := by
  obtain ⟨q, hq, -⟩ := Option.map_eq_some_iff.mp h
  ext1
  · rfl
  · funext k
    by_cases hk : k = name
    · subst hk
      simp [Broker.ensureQueue, hq]
    · simp [Broker.ensureQueue, Function.update_of_ne hk]
  · rfl

/-- A declaration goes through where the name is free or has these arguments. -/
theorem declareExchange_ok [DecidableEq ξ] {x : ξ} (h : ∀ y, s.exchange name = some y → y = x) :
    declareExchange name x false s = (.ok (), s.ensureExchange name x) := by
  unfold declareExchange
  cases hx : s.exchange name with
  | none => rfl
  | some y => simp [h y hx, ensureExchange_of_some hx]

theorem declareExchange_refused [DecidableEq ξ] {x y : ξ} (hy : s.exchange name = some y)
    (hne : y ≠ x) :
    declareExchange name x false s = (.error .preconditionFailed, s) := by
  simp [declareExchange, hy, hne]

theorem declareQueue_ok [DecidableEq θ] {args : θ} (h : ∀ a, s.queueArgs name = some a → a = args) :
    declareQueue name args false s = (.ok (), s.ensureQueue name args) := by
  unfold declareQueue
  cases ha : s.queueArgs name with
  | none => rfl
  | some a => simp [h a ha, ensureQueue_of_some ha]

theorem declareQueue_refused [DecidableEq θ] {args a : θ} (ha : s.queueArgs name = some a)
    (hne : a ≠ args) :
    declareQueue name args false s = (.error .preconditionFailed, s) := by
  simp [declareQueue, ha, hne]

theorem declareExchange_passive [DecidableEq ξ] (x : ξ) : declareExchange name x true s =
    (if (s.exchange name).isSome then .ok () else .error .notFound, s) := by
  unfold declareExchange
  cases hx : s.exchange name <;> simp

theorem declareQueue_passive [DecidableEq θ] (args : θ) : declareQueue name args true s =
    (if (s.queueArgs name).isSome then .ok () else .error .notFound, s) := by
  unfold declareQueue
  cases hx : s.queueArgs name <;> simp

theorem queue_isSome :
    (s.queue name).isSome = (s.queueArgs name).isSome := by simp [Broker.queueArgs]

theorem bindQueue_ok {b : Binding} (hx : (s.exchange b.exchange).isSome = true)
    (hq : (s.queueArgs b.queue).isSome = true) :
    ∃ h, bindQueue b s = (.ok (), s.ensureBinding b h) :=
  ⟨⟨hx, by rwa [queue_isSome]⟩, by rw [bindQueue, dif_pos ⟨hx, by rwa [queue_isSome]⟩]⟩

@[simp] theorem ensureExchange_exchange (x : ξ) :
    (s.ensureExchange name x).exchange name = some ((s.exchange name).getD x) := by
  simp [Broker.ensureExchange]

theorem ensureExchange_other {k : String} (hk : k ≠ name) (x : ξ) :
    (s.ensureExchange name x).exchange k = s.exchange k := by
  simp [Broker.ensureExchange, Function.update_of_ne hk]

@[simp] theorem ensureExchange_queue (x : ξ) : (s.ensureExchange name x).queue = s.queue := rfl
@[simp] theorem ensureExchange_queueArgs (x : ξ) :
    (s.ensureExchange name x).queueArgs = s.queueArgs := rfl
@[simp] theorem ensureExchange_bindings (x : ξ) :
    (s.ensureExchange name x).bindings = s.bindings := rfl

@[simp] theorem ensureQueue_queueArgs (args : θ) :
    (s.ensureQueue name args).queueArgs name = some ((s.queueArgs name).getD args) := by
  cases hq : s.queue name <;> simp [Broker.ensureQueue, Broker.queueArgs, hq]

theorem ensureQueue_queue (args : θ) :
    (s.ensureQueue name args).queue name = some ((s.queue name).getD ⟨args, []⟩) := by
  simp [Broker.ensureQueue]

theorem ensureQueue_other {k : String} (hk : k ≠ name) (args : θ) :
    (s.ensureQueue name args).queue k = s.queue k := by
  simp [Broker.ensureQueue, Function.update_of_ne hk]

@[simp] theorem ensureQueue_exchange (args : θ) :
    (s.ensureQueue name args).exchange = s.exchange := rfl
@[simp] theorem ensureQueue_bindings (args : θ) :
    (s.ensureQueue name args).bindings = s.bindings := rfl

section Binding

variable {b : Binding} (h : (s.exchange b.exchange).isSome = true ∧ (s.queue b.queue).isSome = true)

@[simp] theorem ensureBinding_exchange : (s.ensureBinding b h).exchange = s.exchange := rfl
@[simp] theorem ensureBinding_queue : (s.ensureBinding b h).queue = s.queue := rfl
@[simp] theorem ensureBinding_queueArgs : (s.ensureBinding b h).queueArgs = s.queueArgs := rfl

theorem mem_ensureBinding {b' : Binding} :
    b' ∈ (s.ensureBinding b h).bindings ↔ b' ∈ s.bindings ∨ b' = b := by
  unfold Broker.ensureBinding
  simp only
  split
  · rename_i hb
    exact ⟨.inl, fun hor => hor.elim id fun heq => heq ▸ hb⟩
  · simp

theorem ensureBinding_of_mem (hb : b ∈ s.bindings) : s.ensureBinding b h = s := by
  ext1
  · rfl
  · rfl
  · simp [Broker.ensureBinding, hb]

end Binding

@[simp] theorem removeExchange_exchange : (s.removeExchange name).exchange name = none := by
  simp [Broker.removeExchange]

theorem removeExchange_other {k : String} (hk : k ≠ name) :
    (s.removeExchange name).exchange k = s.exchange k := by
  simp [Broker.removeExchange, Function.update_of_ne hk]

@[simp] theorem removeExchange_queue : (s.removeExchange name).queue = s.queue := rfl
@[simp] theorem removeExchange_queueArgs : (s.removeExchange name).queueArgs = s.queueArgs := rfl

theorem mem_removeExchange {b : Binding} :
    b ∈ (s.removeExchange name).bindings ↔ b ∈ s.bindings ∧ b.exchange ≠ name := by
  simp [Broker.removeExchange]

@[simp] theorem removeQueue_exchange : (s.removeQueue name).exchange = s.exchange := rfl

@[simp] theorem removeQueue_queue :
    (s.removeQueue name).queue name = none := by simp [Broker.removeQueue]

theorem removeQueue_other {k : String} (hk : k ≠ name) :
    (s.removeQueue name).queue k = s.queue k := by
  simp [Broker.removeQueue, Function.update_of_ne hk]

theorem mem_removeQueue {b : Binding} :
    b ∈ (s.removeQueue name).bindings ↔ b ∈ s.bindings ∧ b.queue ≠ name := by
  simp [Broker.removeQueue]

end Specs

/-! ## Brokers that only grow -/

/-- Everything that is there stays as it is, messages included. -/
structure Grows (s t : Broker ξ θ μ) : Prop where
  exchange : ∀ name x, s.exchange name = some x → t.exchange name = some x
  queue : ∀ name q, s.queue name = some q → t.queue name = some q
  bindings : ∀ b ∈ s.bindings, b ∈ t.bindings

theorem Grows.refl (s : Broker ξ θ μ) : Grows s s := ⟨fun _ _ h => h, fun _ _ h => h, fun _ h => h⟩

/-- Growing twice is growing. -/
theorem Grows.trans {s t u : Broker ξ θ μ} (h : Grows s t) (h' : Grows t u) : Grows s u :=
  ⟨fun name x hx => h'.exchange name x (h.exchange name x hx),
    fun name q hq => h'.queue name q (h.queue name q hq),
    fun b hb => h'.bindings b (h.bindings b hb)⟩

/-- As a frame: programs that only add. -/
def growing : Prog.Frame (Broker ξ θ μ) := ⟨Grows, Grows.refl, Grows.trans⟩

theorem Grows.ensureExchange (s : Broker ξ θ μ) (name : String) (x : ξ) :
    Grows s (s.ensureExchange name x) := by
  refine ⟨?_, fun _ _ h => h, fun _ h => h⟩
  intro k y hy
  by_cases hk : k = name
  · subst hk
    simp [hy]
  · rw [ensureExchange_other hk, hy]

theorem Grows.ensureQueue (s : Broker ξ θ μ) (name : String) (args : θ) :
    Grows s (s.ensureQueue name args) := by
  refine ⟨fun _ _ h => h, ?_, fun _ h => h⟩
  intro k q hq
  by_cases hk : k = name
  · subst hk
    rw [ensureQueue_queue, hq, Option.getD_some]
  · rw [ensureQueue_other hk, hq]

theorem keeps_declareExchange [DecidableEq ξ] (name : String) (x : ξ) (passive : Bool) :
    Prog.Keeps growing (declareExchange name x passive : Channel ξ θ μ Unit) := by
  intro s
  unfold declareExchange
  split
  · split
    · exact Grows.refl s
    · exact Grows.ensureExchange s name x
  · split <;> exact Grows.refl s

theorem keeps_declareQueue [DecidableEq θ] (name : String) (args : θ) (passive : Bool) :
    Prog.Keeps growing (declareQueue name args passive : Channel ξ θ μ Unit) := by
  intro s
  unfold declareQueue
  split
  · split
    · exact Grows.refl s
    · exact Grows.ensureQueue s name args
  · split <;> exact Grows.refl s

theorem keeps_bindQueue (b : Binding) : Prog.Keeps growing (bindQueue b : Channel ξ θ μ Unit) := by
  intro s
  unfold bindQueue
  split
  · rename_i h
    exact ⟨fun _ _ h => h, fun _ _ h => h, fun b' hb' => (mem_ensureBinding h).mpr (.inl hb')⟩
  · exact Grows.refl s

/-! ## Brokers with agreeing arguments -/

/-- What is there in the one is there in the other, with the same arguments. -/
structure Fits (s u : Broker ξ θ μ) : Prop where
  exchange : ∀ name x, s.exchange name = some x → u.exchange name = some x
  queueArgs : ∀ name a, s.queueArgs name = some a → u.queueArgs name = some a

/-- What has only grown fits what was declared. -/
theorem Grows.fits {s u : Broker ξ θ μ} (h : Grows s u) : Fits s u := by
  refine ⟨h.exchange, ?_⟩
  intro name a ha
  obtain ⟨q, hq, rfl⟩ := Option.map_eq_some_iff.mp ha
  rw [Broker.queueArgs, h.queue name q hq]
  rfl

/-! ## Messages -/

namespace Broker

variable (s : Broker ξ θ μ)

def messages (name : String) : List μ := ((s.queue name).map Queue.messages).getD []

/-- Other messages in the queues, which stay what they are. -/
def mapMessages (f : String → List μ → List μ) : Broker ξ θ μ where
  exchange := s.exchange
  queue name := (s.queue name).map fun q => { q with messages := f name q.messages }
  bindings := s.bindings
  bound b hb := ⟨(s.bound b hb).1, by simpa using (s.bound b hb).2⟩

/-- The message at the end of each of these queues. -/
def deliverTo (wanted : String → Bool) (m : μ) : Broker ξ θ μ :=
  s.mapMessages fun name l => if wanted name then l ++ [m] else l

def setMessages (name : String) (l : List μ) : Broker ξ θ μ :=
  s.mapMessages fun k old => if k = name then l else old

/-- Whether a binding from the exchange to the queue accepts the key. -/
def routed (accepts : String → Bool) (exchange name : String) : Bool :=
  s.bindings.any fun b => b.exchange == exchange && b.queue == name && accepts b.routingKey

@[simp] theorem mapMessages_bindings (f : String → List μ → List μ) :
    (s.mapMessages f).bindings = s.bindings := rfl
@[simp] theorem mapMessages_exchange (f : String → List μ → List μ) :
    (s.mapMessages f).exchange = s.exchange := rfl

@[simp] theorem mapMessages_queueArgs (f : String → List μ → List μ) :
    (s.mapMessages f).queueArgs = s.queueArgs := by
  funext name
  cases h : s.queue name <;> simp [mapMessages, queueArgs, h]

theorem mapMessages_messages (f : String → List μ → List μ) (name : String) :
    (s.mapMessages f).messages name = if (s.queue name).isSome then f name (s.messages name)
      else [] := by
  cases h : s.queue name <;> simp [mapMessages, messages, h]

variable {s}

theorem mem_deliverTo {wanted : String → Bool} {m m' : μ} {name : String}
    (h : m' ∈ (s.deliverTo wanted m).messages name) :
    m' ∈ s.messages name ∨ (wanted name = true ∧ m' = m) := by
  rw [deliverTo, mapMessages_messages] at h
  split at h
  · split at h
    · obtain h | h := List.mem_append.mp h
      · exact .inl h
      · exact .inr ⟨‹_›, List.mem_singleton.mp h⟩
    · exact .inl h
  · exact absurd h List.not_mem_nil

theorem mem_setMessages {k name : String} {l : List μ} {m : μ}
    (h : m ∈ (s.setMessages name l).messages k) :
    (k = name ∧ m ∈ l) ∨ m ∈ s.messages k := by
  rw [setMessages, mapMessages_messages] at h
  split at h
  · split at h
    · exact .inl ⟨‹_›, h⟩
    · exact .inr h
  · exact absurd h List.not_mem_nil

theorem routed_iff {accepts : String → Bool} {exchange name : String} :
    s.routed accepts exchange name = true ↔
    ∃ b ∈ s.bindings, b.exchange = exchange ∧ b.queue = name ∧ accepts b.routingKey = true := by
  simp [routed, and_assoc]

end Broker

end Brokers

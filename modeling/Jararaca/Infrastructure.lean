import Jararaca.Brokers
import Jararaca.Controllers

/-!
# Declaring the infrastructure

`declare_worker_infrastructure` of cli.py: the exchange of the application, the dead letter
exchange and queue, and the queues of all handlers and scheduled actions, with or without leave
to delete what is in the way. What the worker and the beat worker look up when they start is at
the end.
-/
namespace Infrastructure

open Programs Brokers
open Controllers hiding Binding

/-! ## Arguments of utils/rabbitmq_utils.py -/

inductive ExchangeType where
  | topic
  | direct
  deriving DecidableEq, Repr

structure ExchangeArgs where
  type : ExchangeType
  durable : Bool
  autoDelete : Bool
  deriving DecidableEq, Repr

inductive ArgValue where
  | str (s : String)
  | int (n : Int)
  deriving DecidableEq, Repr

structure QueueArgs where
  durable : Bool
  arguments : List (String × ArgValue)
  deriving DecidableEq, Repr

def deadLetterExchange : String := "dlx"

def deadLetterQueue : String := "dlq"

def mainExchangeArgs : ExchangeArgs := ⟨.topic, true, false⟩

def dlExchangeArgs : ExchangeArgs := ⟨.direct, true, false⟩

def dlQueueArgs : QueueArgs :=
  ⟨true, [("x-dead-letter-exchange", .str ""),
    ("x-dead-letter-routing-key", .str deadLetterExchange)]⟩

def workerQueueArgs : QueueArgs :=
  ⟨true, [("x-dead-letter-exchange", .str deadLetterExchange),
    ("x-dead-letter-routing-key", .str deadLetterExchange)]⟩

def scheduledActionQueueArgs : QueueArgs := ⟨true, [("x-max-length", .int 1)]⟩

/-! ## The command -/

/-- A queue that a controller asks for. -/
structure QueueDeclaration where
  queueName : String
  routingKey : String
  isScheduledAction : Bool
  deriving DecidableEq, Repr

def QueueDeclaration.args (q : QueueDeclaration) : QueueArgs :=
  if q.isScheduledAction then scheduledActionQueueArgs else workerQueueArgs

def handlerDeclaration (f : PyFunction) : Option QueueDeclaration :=
  (declareMessageHandlerQueue f).map fun b => ⟨b.queue, b.routingKey, false⟩

def actionDeclaration (f : PyFunction) : Option QueueDeclaration :=
  (declareScheduledActionQueue f).map fun b => ⟨b.queue, b.routingKey, true⟩

/-- The queues of a controller's members; a member with both decorations has two. -/
def controllerDeclarations (c : PyClass) : List QueueDeclaration :=
  match c.busController with
  | none => []
  | some _ => c.members.flatMap fun member =>
    (handlerDeclaration member.2).toList ++ (actionDeclaration member.2).toList

def declarations (app : List PyClass) : List QueueDeclaration := app.flatMap controllerDeclarations

/-- The exchange of the broker URL, the flags, and what the user answers to a question. -/
structure Flags where
  exchange : String
  force : Bool
  interactive : Bool
  confirm : String → Bool

variable {μ : Type}

abbrev Broker (μ : Type) := Brokers.Broker ExchangeArgs QueueArgs μ

abbrev Command (μ α : Type) := Channel ExchangeArgs QueueArgs μ α

variable (e : Flags)

def shouldRecreateInfrastructure (confirmationMessage : String) : Bool :=
  e.force || (e.interactive && e.confirm confirmationMessage)

def declareMainExchange (passive : Bool) : Command μ Unit :=
  declareExchange e.exchange mainExchangeArgs passive

def declareDlExchange (passive : Bool) : Command μ Unit :=
  declareExchange deadLetterExchange dlExchangeArgs passive

def declareDlQueue (passive : Bool) : Command μ Unit :=
  declareQueue deadLetterQueue dlQueueArgs passive

/-- `dlq.bind(dlx, routing_key=DEAD_LETTER_EXCHANGE)`. -/
def dlBinding : Binding := ⟨deadLetterExchange, deadLetterExchange, deadLetterQueue⟩

def checkInfrastructureExists : Command μ Bool :=
  Prog.tryExcept
    (do declareMainExchange e true; declareDlExchange true; declareDlQueue true; pure true)
    fun _ => pure false

def deleteInfrastructure : Command μ Unit := do
  deleteExchange e.exchange
  deleteExchange deadLetterExchange
  deleteQueue deadLetterQueue

/-- The four declarations, which stand twice in `declare_infrastructure`. -/
def declareAll : Command μ Unit := do
  declareMainExchange e false
  declareDlExchange false
  declareDlQueue false
  bindQueue dlBinding

def declareInfrastructure : Command μ Unit :=
  Prog.tryExcept (declareAll e) fun error =>
    if shouldRecreateInfrastructure e "Delete existing infrastructure and recreate?" then do
      deleteInfrastructure e
      declareAll e
    else if e.force then Prog.raise error
    else pure ()

/-- The infrastructure is deleted here where the check did not find all of it. -/
def setupInfrastructure : Command μ Unit := do
  let infrastructureExists ← checkInfrastructureExists e
  Prog.when (!infrastructureExists && shouldRecreateInfrastructure e
    ("Existing infrastructure found for exchange '" ++ e.exchange ++ "'. Delete and recreate?"))
    (deleteInfrastructure e)
  declareInfrastructure e

def QueueDeclaration.binding (q : QueueDeclaration) : Binding :=
  ⟨e.exchange, q.routingKey, q.queueName⟩

def declareAndBind (e : Flags) (q : QueueDeclaration) : Command μ Unit := do
  declareQueue q.queueName q.args false
  bindQueue (q.binding e)

def declareAndBindQueue (q : QueueDeclaration) : Command μ Unit :=
  Prog.tryExcept (declareAndBind e q) fun _ =>
    if e.force || (e.interactive && e.confirm
      ("Delete and recreate queue " ++ q.queueName ++ "?")) then do
      deleteQueue q.queueName
      declareAndBind e q
    else pure ()

def declareControllerQueues : List QueueDeclaration → Command μ Unit
  | [] => pure ()
  | q :: queues => do
    declareAndBindQueue e q
    declareControllerQueues queues

def declareWorkerInfrastructure (app : List PyClass) : Command μ Unit := do
  setupInfrastructure e
  declareControllerQueues e (declarations app)

/-! ## What is asked of the broker -/

/-- The exchanges and the queue that all applications share, with their binding. -/
structure Shared (s : Broker μ) : Prop where
  main : s.exchange e.exchange = some mainExchangeArgs
  dlx : s.exchange deadLetterExchange = some dlExchangeArgs
  dlq : s.queueArgs deadLetterQueue = some dlQueueArgs
  binding : dlBinding ∈ s.bindings

structure Declared (s : Broker μ) (q : QueueDeclaration) : Prop where
  args : s.queueArgs q.queueName = some q.args
  binding : q.binding e ∈ s.bindings

/-- Everything is there as it should be. -/
structure Complete (queues : List QueueDeclaration) (s : Broker μ) : Prop where
  shared : Shared e s
  queues : ∀ q ∈ queues, Declared e s q

/-- Nothing may be deleted: no force, and no question answered with yes. -/
def NoLeave : Prop :=
  e.force = false ∧ (e.interactive = false ∨ ∀ question, e.confirm question = false)

/-! ## What the declarations do -/

/-- What `declareAll` adds where nothing is in its way. -/
structure SharedAdded (s t : Broker μ) : Prop where
  main : t.exchange e.exchange = some mainExchangeArgs
  dlx : t.exchange deadLetterExchange = some dlExchangeArgs
  otherExchange : ∀ k, k ≠ e.exchange → k ≠ deadLetterExchange → t.exchange k = s.exchange k
  dlq : t.queue deadLetterQueue = some ((s.queue deadLetterQueue).getD ⟨dlQueueArgs, []⟩)
  otherQueue : ∀ k, k ≠ deadLetterQueue → t.queue k = s.queue k
  bindings : ∀ b, b ∈ t.bindings ↔ b ∈ s.bindings ∨ b = dlBinding

/-- What is there of the shared names has the right arguments. -/
structure Ready (s : Broker μ) : Prop where
  main : ∀ y, s.exchange e.exchange = some y → y = mainExchangeArgs
  dlx : ∀ y, s.exchange deadLetterExchange = some y → y = dlExchangeArgs
  dlq : ∀ a, s.queueArgs deadLetterQueue = some a → a = dlQueueArgs

/-- What `declareAndBind` adds where nothing is in its way. -/
structure QueueAdded (q : QueueDeclaration) (s t : Broker μ) : Prop where
  exchange : t.exchange = s.exchange
  own : t.queue q.queueName = some ((s.queue q.queueName).getD ⟨q.args, []⟩)
  other : ∀ k, k ≠ q.queueName → t.queue k = s.queue k
  bindings : ∀ b, b ∈ t.bindings ↔ b ∈ s.bindings ∨ b = q.binding e

variable {e} {s t u : Broker μ} {q : QueueDeclaration} {queues : List QueueDeclaration}

theorem getD_args {θ ν : Type} {o : Option (Queue θ ν)} {a : θ}
    (h : ∀ b, o.map Queue.args = some b → b = a) :
    (o.getD ⟨a, []⟩).args = a := by
  cases o with
  | none => rfl
  | some q => exact h q.args rfl

/-- On a broker that is ready the shared declarations succeed. -/
theorem declareAll_ok (hne : e.exchange ≠ deadLetterExchange) (h : Ready e s) :
    ∃ t, declareAll e s = (.ok (), t) ∧ SharedAdded e s t := by
  have hmain := declareExchange_ok h.main
  have hdlx : declareExchange deadLetterExchange dlExchangeArgs false
      (s.ensureExchange e.exchange mainExchangeArgs) = (.ok (), _) :=
    declareExchange_ok (by rw [ensureExchange_other (Ne.symm hne)]; exact h.dlx)
  have hdlq : declareQueue deadLetterQueue dlQueueArgs false
      ((s.ensureExchange e.exchange mainExchangeArgs).ensureExchange
        deadLetterExchange dlExchangeArgs) =
        (.ok (), _) := declareQueue_ok (by simpa using h.dlq)
  obtain ⟨hbound, hbind⟩ := bindQueue_ok (b := dlBinding)
    (s := ((s.ensureExchange e.exchange mainExchangeArgs).ensureExchange deadLetterExchange
      dlExchangeArgs).ensureQueue
      deadLetterQueue dlQueueArgs) (by simp [dlBinding]) (by simp [dlBinding])
  refine ⟨Broker.ensureBinding _ dlBinding hbound, ?_, ?_⟩
  · rw [declareAll, declareMainExchange, declareDlExchange, declareDlQueue, Prog.bind_ok hmain,
      Prog.bind_ok hdlx,
      Prog.bind_ok hdlq, hbind]
  · constructor
    case main =>
      rw [ensureBinding_exchange, ensureQueue_exchange, ensureExchange_other hne,
        ensureExchange_exchange]
      cases hx : s.exchange e.exchange with
      | none => rfl
      | some y => rw [h.main y hx]; rfl
    case dlx =>
      rw [ensureBinding_exchange, ensureQueue_exchange, ensureExchange_exchange,
        ensureExchange_other (Ne.symm hne)]
      cases hx : s.exchange deadLetterExchange with
      | none => rfl
      | some y => rw [h.dlx y hx]; rfl
    case otherExchange =>
      intro k hk hk'
      rw [ensureBinding_exchange, ensureQueue_exchange, ensureExchange_other hk',
        ensureExchange_other hk]
    case dlq =>
      rw [ensureBinding_queue, ensureQueue_queue]
      rfl
    case otherQueue =>
      intro k hk
      rw [ensureBinding_queue, ensureQueue_other hk]
      rfl
    case bindings =>
      intro b
      rw [mem_ensureBinding]
      rfl

/-- After them all the shared names are there. -/
theorem SharedAdded.shared (h : SharedAdded e s t) (hready : Ready e s) : Shared e t := by
  refine ⟨h.main, h.dlx, ?_, (h.bindings _).mpr (.inr rfl)⟩
  rw [Broker.queueArgs, h.dlq, Option.map_some, getD_args hready.dlq]

/-- A queue is declared and bound, unless it is there with other arguments. -/
theorem declareAndBind_ok (hx : (s.exchange e.exchange).isSome = true)
    (hq : ∀ a, s.queueArgs q.queueName = some a → a = q.args) :
    ∃ t, declareAndBind e q s = (.ok (), t) ∧ QueueAdded e q s t := by
  have hdeclare := declareQueue_ok hq
  obtain ⟨hbound, hbind⟩ := bindQueue_ok (b := q.binding e) (s := s.ensureQueue q.queueName q.args)
    (by simpa [QueueDeclaration.binding] using hx) (by simp [QueueDeclaration.binding])
  refine ⟨Broker.ensureBinding _ (q.binding e) hbound, ?_, ?_⟩
  · rw [declareAndBind, Prog.bind_ok hdeclare, hbind]
  · constructor
    case exchange => rfl
    case own => rw [ensureBinding_queue, ensureQueue_queue]
    case other =>
      intro k hk
      rw [ensureBinding_queue, ensureQueue_other hk]
    case bindings =>
      intro b
      rw [mem_ensureBinding]
      rfl

theorem QueueAdded.declared (h : QueueAdded e q s t)
    (hq : ∀ a, s.queueArgs q.queueName = some a → a = q.args) :
    Declared e t q := by
  refine ⟨?_, (h.bindings _).mpr (.inr rfl)⟩
  rw [Broker.queueArgs, h.own, Option.map_some, getD_args hq]

/-- Nothing that is there is lost where a queue is added. -/
theorem QueueAdded.grows (h : QueueAdded e q s t) : Grows s t := by
  refine ⟨fun _ _ hx => h.exchange ▸ hx, ?_, fun b hb => (h.bindings b).mpr (.inl hb)⟩
  intro name q' hq'
  by_cases hk : name = q.queueName
  · subst hk
    rw [h.own, hq', Option.getD_some]
  · rw [h.other name hk, hq']

theorem Declared.mono (hq : Declared e s q) (h : Grows s t) : Declared e t q :=
  ⟨h.fits.queueArgs _ _ hq.args, h.bindings _ hq.binding⟩

theorem Shared.mono (hs : Shared e s) (h : Grows s t) : Shared e t :=
  ⟨h.exchange _ _ hs.main, h.exchange _ _ hs.dlx, h.fits.queueArgs _ _ hs.dlq,
    h.bindings _ hs.binding⟩

/-- The two exchanges have different names wherever both are right. -/
theorem Shared.ne (h : Shared e s) : e.exchange ≠ deadLetterExchange := by
  intro heq
  have hmain := h.main
  rw [heq, h.dlx] at hmain
  exact absurd hmain (by decide)

theorem args_ne_dlQueueArgs (q : QueueDeclaration) : q.args ≠ dlQueueArgs := by
  unfold QueueDeclaration.args
  split <;> decide

theorem Complete.name_ne (h : Complete e queues s) (hq : q ∈ queues) :
    q.queueName ≠ deadLetterQueue := by
  intro heq
  have hargs := (h.queues q hq).args
  rw [heq, h.shared.dlq] at hargs
  exact args_ne_dlQueueArgs q (Option.some.inj hargs).symm

/-- What fits a broker with the shared names is ready for them. -/
theorem Shared.ready (hu : Shared e u) (h : Fits s u) : Ready e s := by
  refine ⟨?_, ?_, ?_⟩
  · intro y hy
    exact Option.some.inj ((h.exchange _ _ hy).symm.trans hu.main)
  · intro y hy
    exact Option.some.inj ((h.exchange _ _ hy).symm.trans hu.dlx)
  · intro a ha
    exact Option.some.inj ((h.queueArgs _ _ ha).symm.trans hu.dlq)

/-- What fits a broker with all the shared names fits it after the shared declarations. -/
theorem SharedAdded.fits (hadded : SharedAdded e s t) (h : Fits s u) (hu : Shared e u) :
    Fits t u := by
  constructor
  case exchange =>
    intro name x hx
    by_cases hmain : name = e.exchange
    · rw [hmain, hadded.main] at hx
      rw [hmain, hu.main, ← hx]
    · by_cases hdlx : name = deadLetterExchange
      · rw [hdlx, hadded.dlx] at hx
        rw [hdlx, hu.dlx, ← hx]
      · exact h.exchange name x (hadded.otherExchange name hmain hdlx ▸ hx)
  case queueArgs =>
    intro name a ha
    by_cases hname : name = deadLetterQueue
    · have hargs := (hadded.shared (hu.ready h)).dlq
      rw [hname, hargs] at ha
      rw [hname, hu.dlq, ← ha]
    · rw [Broker.queueArgs, hadded.otherQueue name hname] at ha
      exact h.queueArgs name a ha

/-- So it does after the declaration of a queue that is there. -/
theorem QueueAdded.fits (hadded : QueueAdded e q s t) (h : Fits s u) (hu : Declared e u q) :
    Fits t u := by
  constructor
  case exchange =>
    intro name x hx
    exact h.exchange name x (hadded.exchange ▸ hx)
  case queueArgs =>
    intro name a ha
    by_cases hname : name = q.queueName
    · have hargs :=
        (hadded.declared fun a ha => Option.some.inj ((h.queueArgs _ _ ha).symm.trans hu.args)).args
      rw [hname, hargs] at ha
      rw [hname, hu.args, ← ha]
    · rw [Broker.queueArgs, hadded.other name hname] at ha
      exact h.queueArgs name a ha

/-! ## Without leave to delete -/

section NoLeave

variable (hleave : NoLeave e)

include hleave in
theorem NoLeave.should (message : String) : shouldRecreateInfrastructure e message = false := by
  obtain ⟨hforce, hinteractive | hconfirm⟩ := hleave
  · simp [shouldRecreateInfrastructure, hforce, hinteractive]
  · simp [shouldRecreateInfrastructure, hforce, hconfirm]

theorem tryExcept_ignore (m : Command μ Unit) (s : Broker μ) :
    Prog.tryExcept m (fun _ => pure ()) s = (.ok (), (m s).2) := by
  cases hm : m s with
  | mk r t =>
    cases r with
    | ok a => exact Prog.tryExcept_ok hm _
    | error x => rw [Prog.tryExcept_error hm]; rfl

include hleave in
theorem declareInfrastructure_noLeave (s : Broker μ) :
    declareInfrastructure e s = (.ok (), (declareAll e s).2) := by
  have hhandler : (fun error : Refusal => if shouldRecreateInfrastructure e
      "Delete existing infrastructure and recreate?" =
        true then (do deleteInfrastructure e; declareAll e)
      else if e.force = true then Prog.raise error else pure ()) =
        fun _ => (pure () : Command μ Unit) := by
    funext error
    rw [NoLeave.should hleave, hleave.1]
    rfl
  rw [declareInfrastructure, hhandler, tryExcept_ignore]

/-- A check only looks. -/
theorem checkInfrastructureExists_run (s : Broker μ) : checkInfrastructureExists e s =
    (.ok ((s.exchange e.exchange).isSome && (s.exchange deadLetterExchange).isSome &&
      (s.queueArgs deadLetterQueue).isSome), s) := by
  have hmain : declareExchange e.exchange mainExchangeArgs true s = _ := declareExchange_passive _
  have hdlx : declareExchange deadLetterExchange dlExchangeArgs true s = _ :=
    declareExchange_passive _
  have hdlq : declareQueue deadLetterQueue dlQueueArgs true s = _ := declareQueue_passive _
  unfold checkInfrastructureExists declareMainExchange declareDlExchange declareDlQueue
  cases h : (s.exchange e.exchange).isSome with
  | false =>
    rw [h] at hmain
    rw [Prog.tryExcept_error (Prog.bind_error hmain _)]
    rfl
  | true =>
    rw [h] at hmain
    cases h' : (s.exchange deadLetterExchange).isSome with
    | false =>
      rw [h'] at hdlx
      rw [Prog.tryExcept_error ((Prog.bind_ok hmain _).trans (Prog.bind_error hdlx _))]
      rfl
    | true =>
      rw [h'] at hdlx
      cases h'' : (s.queueArgs deadLetterQueue).isSome with
      | false =>
        rw [h''] at hdlq
        rw [Prog.tryExcept_error ((Prog.bind_ok hmain _).trans
          ((Prog.bind_ok hdlx _).trans (Prog.bind_error hdlq _)))]
        rfl
      | true =>
        rw [h''] at hdlq
        rw [Prog.tryExcept_ok ((Prog.bind_ok hmain _).trans
          ((Prog.bind_ok hdlx _).trans (Prog.bind_ok hdlq _)))]
        rfl

include hleave in
/-- On a connection that stays open the set up is its declarations. -/
theorem setupInfrastructure_noLeave (s : Broker μ) :
    setupInfrastructure e s = (.ok (), (declareAll e s).2) := by
  rw [setupInfrastructure, Prog.bind_ok (checkInfrastructureExists_run s), NoLeave.should hleave,
    Bool.and_false,
    Prog.when_false]
  exact declareInfrastructure_noLeave hleave s

include hleave in
theorem declareAndBindQueue_noLeave (q : QueueDeclaration) (s : Broker μ) :
    declareAndBindQueue e q s = (.ok (), (declareAndBind e q s).2) := by
  have hcondition : (e.force || (e.interactive &&
      e.confirm ("Delete and recreate queue " ++ q.queueName ++ "?"))) = false :=
    NoLeave.should hleave _
  simp only [declareAndBindQueue, hcondition, Bool.false_eq_true, if_false]
  exact tryExcept_ignore _ s

theorem keeps_declareAll : Prog.Keeps growing (declareAll e : Command μ Unit) :=
  (keeps_declareExchange _ _ _).bind fun _ => (keeps_declareExchange _ _ _).bind fun _ =>
    (keeps_declareQueue _ _ _).bind fun _ => keeps_bindQueue _

theorem keeps_declareAndBind (q : QueueDeclaration) :
    Prog.Keeps growing (declareAndBind e q : Command μ Unit) :=
  (keeps_declareQueue _ _ _).bind fun _ => keeps_bindQueue _

/-- The queues one after the other, whatever becomes of each. -/
def bindAll (e : Flags) (queues : List QueueDeclaration) (s : Broker μ) : Broker μ :=
  queues.foldl (fun s q => (declareAndBind e q s).2) s

include hleave in
/-- So are the queues of the controllers. -/
theorem declareControllerQueues_noLeave (queues : List QueueDeclaration) (s : Broker μ) :
    declareControllerQueues e queues s = (.ok (), bindAll e queues s) := by
  induction queues generalizing s with
  | nil => rfl
  | cons q queues ih =>
    rw [declareControllerQueues, Prog.bind_ok (declareAndBindQueue_noLeave hleave q s), ih]
    rfl

/-- Declaring queues takes nothing away. -/
theorem bindAll_grows (queues : List QueueDeclaration) (s : Broker μ) :
    Grows s (bindAll e queues s) := by
  induction queues generalizing s with
  | nil => exact Grows.refl s
  | cons q queues ih => exact (keeps_declareAndBind q s).trans (ih _)

/-- Where the broker fits one that is complete, every queue is declared. -/
theorem bindAll_declared (hu : Complete e queues u) (hfits : Fits s u) (hshared : Shared e s) :
    ∀ q ∈ queues, Declared e (bindAll e queues s) q := by
  induction queues generalizing s with
  | nil => exact fun q hq => absurd hq List.not_mem_nil
  | cons q queues ih =>
    have hq := hu.queues q List.mem_cons_self
    have hargs : ∀ a, s.queueArgs q.queueName = some a → a = q.args := fun a ha =>
      Option.some.inj ((hfits.queueArgs _ _ ha).symm.trans hq.args)
    obtain ⟨t, hrun, hadded⟩ := declareAndBind_ok (e := e) (by rw [hshared.main]; rfl) hargs
    have hbind : bindAll e (q :: queues) s = bindAll e queues t := by
      simp only [bindAll, List.foldl_cons, hrun]
    rw [hbind]
    have hrest := ih ⟨hu.shared, fun q' hq' => hu.queues q' (List.mem_cons_of_mem q hq')⟩
      (hadded.fits hfits hq) (hshared.mono hadded.grows)
    intro q' hq'
    obtain rfl | hq' := List.mem_cons.mp hq'
    · exact (hadded.declared hargs).mono (bindAll_grows queues t)
    · exact hrest q' hq'

include hleave in
/-- Without leave to delete, `declare` always reports success and takes nothing from the broker;
what it leaves is complete exactly where nothing was in its way. -/
theorem declare_without_leave (app : List PyClass) (s : Broker μ) :
    ∃ t, declareWorkerInfrastructure e app s = (.ok (), t) ∧ Grows s t ∧
      (Complete e (declarations app) t ↔ ∃ u, Fits s u ∧ Complete e (declarations app) u) := by
  refine ⟨bindAll e (declarations app) (declareAll e s).2, ?_, ?_, ?_⟩
  · rw [declareWorkerInfrastructure, Prog.bind_ok (setupInfrastructure_noLeave hleave s),
      declareControllerQueues_noLeave hleave]
  · exact (keeps_declareAll s).trans (bindAll_grows _ _)
  · constructor
    · intro hcomplete
      exact ⟨_, ((keeps_declareAll s).trans (bindAll_grows _ _)).fits, hcomplete⟩
    · rintro ⟨u, hfits, hu⟩
      have hready := hu.shared.ready hfits
      obtain ⟨t, hrun, hadded⟩ := declareAll_ok hu.shared.ne hready
      have hshared := hadded.shared hready
      rw [hrun]
      exact ⟨hshared.mono (bindAll_grows _ t),
        bindAll_declared hu (hadded.fits hfits hu.shared) hshared⟩

end NoLeave

/-- A handler of the topic `user` in a controller, and flags without leave. -/
def onUser : PyFunction where
  ref := 0
  module := "app"
  qualname := "Users.on_user"
  messageHandlers := [{ messageType := ⟨"user", false⟩ }]

def usersController : PyClass := .mk 1 [("on_user", some onUser)] (some true) []

def plainFlags : Flags := ⟨"app", false, false, fun _ => false⟩

/-- A broker without anything. -/
theorem declare_on_empty_broker :
    ∃ t, declareWorkerInfrastructure plainFlags [usersController]
      (Broker.empty : Broker Nat) = (.ok (), t) ∧
      Grows Broker.empty t ∧ (Complete plainFlags (declarations [usersController]) t ↔
        ∃ u : Broker Nat, Fits Broker.empty u ∧
          Complete plainFlags (declarations [usersController]) u) :=
  declare_without_leave ⟨rfl, .inl rfl⟩ [usersController] Broker.empty

end Infrastructure

import Jararaca.Infrastructure
import Jararaca.QueueIdentity

/-!
# Declaring the infrastructure with force

With force, `declare` deletes what is in its way: a queue with other arguments, and the whole
shared part where some of it is missing or wrong. What is right is left alone with or without
force, and is what the worker and the beat worker look up when they start. The worker looks up the
names of its consumers, which it computes from the callables of the instances, and the beat worker
the function ids of whatever actions the instances have.
-/
namespace ForcedInfrastructure

open Programs Brokers Infrastructure
open Controllers (PyClass)
open QueueIdentity (Consumer MembersKept)

variable {μ : Type} {e : Flags} {s t : Broker μ} {q : QueueDeclaration}
  {queues : List QueueDeclaration}

section Force

/-- All of the shared names are there with the right arguments. -/
structure Intact (e : Flags) (s : Broker μ) : Prop where
  main : s.exchange e.exchange = some mainExchangeArgs
  dlx : s.exchange deadLetterExchange = some dlExchangeArgs
  dlq : s.queueArgs deadLetterQueue = some dlQueueArgs

instance (e : Flags) (s : Broker μ) : Decidable (Intact e s) :=
  decidable_of_iff (s.exchange e.exchange = some mainExchangeArgs ∧
      s.exchange deadLetterExchange = some dlExchangeArgs ∧
        s.queueArgs deadLetterQueue = some dlQueueArgs)
    ⟨fun h => ⟨h.1, h.2.1, h.2.2⟩, fun h => ⟨h.main, h.dlx, h.dlq⟩⟩

/-- A broker with the infrastructure in place is ready for it. -/
theorem Intact.ready (h : Intact e s) : Ready e s := by
  refine ⟨?_, ?_, ?_⟩
  · intro y hy
    exact Option.some.inj (hy.symm.trans h.main)
  · intro y hy
    exact Option.some.inj (hy.symm.trans h.dlx)
  · intro a ha
    exact Option.some.inj (ha.symm.trans h.dlq)

/-- What `delete_infrastructure` leaves. -/
def dropShared (e : Flags) (s : Broker μ) : Broker μ :=
  ((s.removeExchange e.exchange).removeExchange deadLetterExchange).removeQueue deadLetterQueue

theorem deleteInfrastructure_run (s : Broker μ) :
    deleteInfrastructure e s = (.ok (), dropShared e s) := rfl

theorem dropShared_ready (s : Broker μ) : Ready e (dropShared e s) := by
  refine ⟨?_, ?_, ?_⟩
  · intro y hy
    by_cases hne : e.exchange = deadLetterExchange
    · simp [dropShared, hne] at hy
    · simp [dropShared, removeExchange_other hne] at hy
  · intro y hy
    simp [dropShared] at hy
  · intro a ha
    simp [dropShared, Broker.queueArgs] at ha

/-- The bindings that the deletions leave. -/
theorem mem_dropShared {b : Binding} : b ∈ (dropShared e s).bindings ↔
    b ∈ s.bindings ∧ b.exchange ≠ e.exchange ∧ b.exchange ≠ deadLetterExchange ∧
      b.queue ≠ deadLetterQueue := by
  simp only [dropShared, mem_removeQueue, mem_removeExchange, and_assoc]

/-- The names that are there but wrong are refused before anything is changed. -/
theorem declareAll_refused (hmain : (s.exchange e.exchange).isSome = true)
    (hdlx : (s.exchange deadLetterExchange).isSome = true)
    (hdlq : (s.queueArgs deadLetterQueue).isSome = true)
    (h : ¬Intact e s) : declareAll e s = (.error .preconditionFailed, s) := by
  obtain ⟨x, hx⟩ := Option.isSome_iff_exists.mp hmain
  obtain ⟨y, hy⟩ := Option.isSome_iff_exists.mp hdlx
  obtain ⟨a, ha⟩ := Option.isSome_iff_exists.mp hdlq
  unfold declareAll declareMainExchange declareDlExchange declareDlQueue
  by_cases hxm : x = mainExchangeArgs
  · have hfirst : declareExchange e.exchange mainExchangeArgs false s = (.ok (), _) :=
      declareExchange_ok fun z hz => (Option.some.inj (hz.symm.trans hx)).trans hxm
    rw [ensureExchange_of_some hx] at hfirst
    rw [Prog.bind_ok hfirst]
    by_cases hyd : y = dlExchangeArgs
    · have hsecond : declareExchange deadLetterExchange dlExchangeArgs false s = (.ok (), _) :=
        declareExchange_ok fun z hz => (Option.some.inj (hz.symm.trans hy)).trans hyd
      rw [ensureExchange_of_some hy] at hsecond
      have hwrong : a ≠ dlQueueArgs := fun heq => h ⟨hxm ▸ hx, hyd ▸ hy, heq ▸ ha⟩
      rw [Prog.bind_ok hsecond, Prog.bind_error (declareQueue_refused ha hwrong)]
    · rw [Prog.bind_error (declareExchange_refused hy hyd)]
  · rw [Prog.bind_error (declareExchange_refused hx hxm)]

variable (hforce : e.force = true)

include hforce in
theorem should_of_force (message : String) : shouldRecreateInfrastructure e message = true := by
  simp [shouldRecreateInfrastructure, hforce]

/-- What `setup_infrastructure` starts its declarations from: the broker, or what is left of it. -/
def cleared (e : Flags) (s : Broker μ) : Broker μ := if Intact e s then s else dropShared e s

/-- What the declarations start from is ready for them, on every broker. -/
theorem cleared_ready (s : Broker μ) : Ready e (cleared e s) := by
  unfold cleared
  split
  · exact Intact.ready ‹_›
  · exact dropShared_ready s

include hforce in
/-- With `--force` the set-up succeeds on every broker. -/
theorem setupInfrastructure_force (hne : e.exchange ≠ deadLetterExchange) (s : Broker μ) :
    ∃ t, setupInfrastructure e s = (.ok (), t) ∧ SharedAdded e (cleared e s) t := by
  obtain ⟨t, hrun, hadded⟩ := declareAll_ok hne (cleared_ready s)
  refine ⟨t, ?_, hadded⟩
  rw [setupInfrastructure, Prog.bind_ok (checkInfrastructureExists_run s), should_of_force hforce,
    Bool.and_true]
  cases hexists : (s.exchange e.exchange).isSome && (s.exchange deadLetterExchange).isSome &&
      (s.queueArgs deadLetterQueue).isSome with
  | false =>
    have hnot : ¬Intact e s := by
      intro h
      simp [h.main, h.dlx, h.dlq] at hexists
    have hdrop : Prog.when (!false) (deleteInfrastructure e) s = (.ok (), dropShared e s) := rfl
    rw [cleared, if_neg hnot] at hrun
    rw [Prog.bind_ok hdrop, declareInfrastructure, Prog.tryExcept_ok hrun]
  | true =>
    simp only [Bool.and_eq_true] at hexists
    have hskip : Prog.when (!true) (deleteInfrastructure e) s = (.ok (), s) := rfl
    rw [Prog.bind_ok hskip, declareInfrastructure]
    by_cases hintact : Intact e s
    · rw [cleared, if_pos hintact] at hrun
      rw [Prog.tryExcept_ok hrun]
    · rw [cleared, if_neg hintact] at hrun
      rw [Prog.tryExcept_error (declareAll_refused hexists.1.1 hexists.1.2 hexists.2 hintact),
        should_of_force hforce, if_pos rfl, Prog.bind_ok (deleteInfrastructure_run s), hrun]

/-- One queue under force: if it is there with other arguments it is deleted first. -/
structure QueueForced (e : Flags) (q : QueueDeclaration) (s t : Broker μ) : Prop where
  exchange : t.exchange = s.exchange
  declared : Declared e t q
  other : ∀ k, k ≠ q.queueName → t.queue k = s.queue k
  bindings : ∀ b, b.queue ≠ q.queueName → (b ∈ t.bindings ↔ b ∈ s.bindings)
  kept : s.queueArgs q.queueName = some q.args → Grows s t

include hforce in
/-- With `--force` each queue is deleted and declared anew, with its arguments. -/
theorem declareAndBindQueue_force (hx : (s.exchange e.exchange).isSome = true)
    (q : QueueDeclaration) :
    ∃ t, declareAndBindQueue e q s = (.ok (), t) ∧ QueueForced e q s t := by
  have hcondition : (e.force || (e.interactive &&
      e.confirm ("Delete and recreate queue " ++ q.queueName ++ "?"))) = true :=
    should_of_force hforce _
  simp only [declareAndBindQueue, hcondition, if_true]
  by_cases hargs : ∀ a, s.queueArgs q.queueName = some a → a = q.args
  · obtain ⟨t, hrun, hadded⟩ := declareAndBind_ok (e := e) hx hargs
    refine ⟨t, Prog.tryExcept_ok hrun _, hadded.exchange, hadded.declared hargs, hadded.other, ?_,
      fun _ => hadded.grows⟩
    intro b hb
    rw [hadded.bindings]
    refine ⟨fun h => h.resolve_right ?_, .inl⟩
    rintro rfl
    exact hb rfl
  · push Not at hargs
    obtain ⟨a, ha, hwrong⟩ := hargs
    have hfree : ∀ a, (s.removeQueue q.queueName).queueArgs q.queueName = some a → a = q.args := by
      intro a ha
      simp [Broker.queueArgs] at ha
    obtain ⟨t, hrun, hadded⟩ := declareAndBind_ok (e := e) (s := s.removeQueue q.queueName) hx hfree
    have herror : declareAndBind e q s = (.error .preconditionFailed, s) := by
      rw [declareAndBind, Prog.bind_error (declareQueue_refused ha hwrong)]
    have hdelete :
        (deleteQueue q.queueName : Command μ Unit) s = (.ok (), s.removeQueue q.queueName) := rfl
    refine ⟨t, ?_, hadded.exchange, hadded.declared hfree, ?_, ?_, ?_⟩
    · rw [Prog.tryExcept_error herror, Prog.bind_ok hdelete, hrun]
    · intro k hk
      rw [hadded.other k hk, removeQueue_other hk]
    · intro b hb
      rw [hadded.bindings, mem_removeQueue]
      constructor
      · rintro (⟨hmem, -⟩ | rfl)
        · exact hmem
        · exact absurd rfl hb
      · exact fun hmem => .inl ⟨hmem, hb⟩
    · intro hright
      exact absurd (Option.some.inj (ha.symm.trans hright)) hwrong

/-- A declared queue stays declared: the next one has another name, or the same arguments. -/
theorem QueueForced.stays (h : QueueForced e q s t) {q' : QueueDeclaration} (hq' : Declared e s q')
    (hsame : q'.queueName = q.queueName → q'.args = q.args) : Declared e t q' := by
  by_cases hname : q'.queueName = q.queueName
  · have hkept := h.kept (by rw [← hname, hq'.args, hsame hname])
    exact hq'.mono hkept
  · refine ⟨?_, (h.bindings _ hname).mpr hq'.binding⟩
    rw [Broker.queueArgs, h.other _ hname]
    exact hq'.args

/-- Forcing a queue leaves the shared parts in place. -/
theorem QueueForced.shared (h : QueueForced e q s t) (hs : Shared e s)
    (hname : q.queueName ≠ deadLetterQueue) :
    Shared e t := by
  refine ⟨h.exchange ▸ hs.main, h.exchange ▸ hs.dlx, ?_, (h.bindings _ hname.symm).mpr hs.binding⟩
  rw [Broker.queueArgs, h.other _ hname.symm]
  exact hs.dlq

/-- What the loop over the queues does under force. -/
structure QueuesForced (e : Flags) (queues : List QueueDeclaration) (s t : Broker μ) : Prop where
  exchange : t.exchange = s.exchange
  declared : ∀ q ∈ queues, Declared e t q
  other : ∀ k, (∀ q ∈ queues, q.queueName ≠ k) → t.queue k = s.queue k
  bindings : ∀ b, (∀ q ∈ queues, q.queueName ≠ b.queue) → (b ∈ t.bindings ↔ b ∈ s.bindings)
  stays : ∀ q', (∀ q ∈ queues, q'.queueName = q.queueName → q'.args = q.args) → Declared e s q' →
    Declared e t q'

include hforce in
/-- So it is for all the queues, if a name stands for one set of arguments. -/
theorem declareControllerQueues_force (hx : (s.exchange e.exchange).isSome = true)
    (hsame : ∀ q ∈ queues, ∀ q' ∈ queues, q.queueName = q'.queueName → q.args = q'.args) :
    ∃ t, declareControllerQueues e queues s = (.ok (), t) ∧ QueuesForced e queues s t := by
  induction queues generalizing s with
  | nil =>
    refine ⟨s, rfl, rfl, ?_, fun _ _ => rfl, fun _ _ => Iff.rfl, fun _ _ h => h⟩
    exact fun q hq => absurd hq List.not_mem_nil
  | cons q queues ih =>
    obtain ⟨m, hrun, hone⟩ := declareAndBindQueue_force hforce hx q
    obtain ⟨t, hrest, hmore⟩ := ih (s := m) (hone.exchange ▸ hx) fun q₁ h₁ q₂ h₂ =>
      hsame q₁ (List.mem_cons_of_mem q h₁) q₂ (List.mem_cons_of_mem q h₂)
    refine ⟨t, by rw [declareControllerQueues, Prog.bind_ok hrun, hrest], ?_⟩
    constructor
    case exchange => exact hmore.exchange.trans hone.exchange
    case declared =>
      intro q' hq'
      obtain rfl | hq' := List.mem_cons.mp hq'
      · exact hmore.stays _ (fun q₁ h₁ => hsame _ List.mem_cons_self q₁ (List.mem_cons_of_mem _ h₁))
          hone.declared
      · exact hmore.declared q' hq'
    case other =>
      intro k hk
      rw [hmore.other k fun q' hq' => hk q' (List.mem_cons_of_mem q hq')]
      exact hone.other k (hk q List.mem_cons_self).symm
    case bindings =>
      intro b hb
      rw [hmore.bindings b fun q' hq' => hb q' (List.mem_cons_of_mem q hq')]
      exact hone.bindings b (hb q List.mem_cons_self).symm
    case stays =>
      intro q' hq' hdeclared
      refine hmore.stays q' (fun q₁ h₁ => hq' q₁ (List.mem_cons_of_mem q h₁)) ?_
      exact hone.stays hdeclared (hq' q List.mem_cons_self)

include hforce in
/-- With force, `declare` leaves everything as it should be, if that can be at all. The dead
letters, and the bindings of other applications' queues to the exchange, are kept only where the
shared part was right before. -/
theorem declare_with_force (app : List PyClass)
    (hu : ∃ u : Broker μ, Complete e (declarations app) u)
    (s : Broker μ) :
    ∃ t, declareWorkerInfrastructure e app s = (.ok (), t) ∧ Complete e (declarations app) t ∧
      (t.queue deadLetterQueue =
        if Intact e s then s.queue deadLetterQueue else some ⟨dlQueueArgs, []⟩) ∧
      ∀ b ∈ s.bindings, b.exchange = e.exchange → b.queue ≠ deadLetterQueue →
        (∀ q ∈ declarations app, q.queueName ≠ b.queue) → (b ∈ t.bindings ↔ Intact e s) := by
  obtain ⟨u, hu⟩ := hu
  obtain ⟨m, hsetup, hadded⟩ := setupInfrastructure_force hforce hu.shared.ne s
  have hshared := hadded.shared (cleared_ready s)
  have hsame : ∀ q ∈ declarations app, ∀ q' ∈ declarations app, q.queueName = q'.queueName →
      q.args = q'.args := by
    intro q hq q' hq' hname
    have hargs := (hu.queues q hq).args
    rw [hname, (hu.queues q' hq').args] at hargs
    exact (Option.some.inj hargs).symm
  have hnames : ∀ q ∈ declarations app, q.queueName ≠ deadLetterQueue := fun q hq => hu.name_ne hq
  obtain ⟨t, hloop, hforced⟩ :=
    declareControllerQueues_force hforce (s := m) (by rw [hshared.main]; rfl) hsame
  refine ⟨t, ?_, ⟨?_, hforced.declared⟩, ?_, ?_⟩
  · rw [declareWorkerInfrastructure, Prog.bind_ok hsetup, hloop]
  · refine ⟨hforced.exchange ▸ hshared.main, hforced.exchange ▸ hshared.dlx, ?_,
      (hforced.bindings _ hnames).mpr hshared.binding⟩
    rw [Broker.queueArgs, hforced.other _ hnames]
    exact hshared.dlq
  · rw [hforced.other _ hnames, hadded.dlq]
    unfold cleared
    split
    · rename_i h
      obtain ⟨q, hq, -⟩ := Option.map_eq_some_iff.mp h.dlq
      rw [hq, Option.getD_some]
    · simp [dropShared]
  · intro b hb hmain hdlq hother
    have hne : b ≠ dlBinding := fun heq => hdlq (congrArg Brokers.Binding.queue heq)
    rw [hforced.bindings b hother, hadded.bindings, or_iff_left hne]
    unfold cleared
    split
    · rename_i h
      exact iff_of_true hb h
    · rename_i h
      rw [mem_dropShared]
      exact iff_of_false (fun hmem => hmem.2.1 hmain) h

end Force

/-- A broker with the exchange, some dead letters, and the queue of the one handler. -/
def usersBroker (dead : List μ) : Broker μ where
  exchange name := if name = "app" then some mainExchangeArgs
    else if name = "dlx" then some dlExchangeArgs else none
  queue name := if name = "dlq" then some ⟨dlQueueArgs, dead⟩
    else if name = "user.app.Users.on_user" then some ⟨workerQueueArgs, []⟩ else none
  bindings := [dlBinding, ⟨"app", "user.#", "user.app.Users.on_user"⟩]
  bound := by
    intro b hb
    obtain rfl | hb := List.mem_cons.mp hb
    · exact ⟨rfl, rfl⟩
    · rw [List.mem_singleton.mp hb]
      exact ⟨rfl, rfl⟩

theorem declarations_users :
    declarations [usersController] = [⟨"user.app.Users.on_user", "user.#", false⟩] := by
  decide

theorem usersBroker_complete (force : Bool) (dead : List μ) :
    Complete ⟨"app", force, false, fun _ => false⟩ (declarations [usersController])
      (usersBroker dead) := by
  refine ⟨⟨rfl, rfl, rfl, List.mem_cons_self⟩, ?_⟩
  rw [declarations_users]
  intro q hq
  rw [List.mem_singleton.mp hq]
  exact ⟨rfl, List.mem_cons_of_mem _ List.mem_cons_self⟩

/-- A broker on which the exchange is missing. -/
theorem declare_with_force_missing_exchange :
    ∃ t, declareWorkerInfrastructure ⟨"app", true, false, fun _ => false⟩ [usersController]
        ((usersBroker [1, 2]).removeExchange "app") = (.ok (), t) ∧
      t.queue deadLetterQueue = some ⟨dlQueueArgs, []⟩ := by
  obtain ⟨t, hrun, -, hdlq, -⟩ := declare_with_force (e := ⟨"app", true, false, fun _ => false⟩) rfl
    [usersController] ⟨usersBroker [1, 2], usersBroker_complete true [1, 2]⟩
    ((usersBroker [1, 2]).removeExchange "app")
  exact ⟨t, hrun, hdlq⟩

/-! ## What is declared is found -/

/-- On a broker that has the shared parts declaring them changes nothing. -/
theorem declareAll_shared (h : Shared e s) : declareAll e s = (.ok (), s) := by
  have hready := h.ready (Grows.refl s).fits
  have hmain := declareExchange_ok hready.main
  rw [ensureExchange_of_some h.main] at hmain
  have hdlx := declareExchange_ok hready.dlx
  rw [ensureExchange_of_some h.dlx] at hdlx
  have hdlq := declareQueue_ok hready.dlq
  rw [ensureQueue_of_some h.dlq] at hdlq
  obtain ⟨hbound, hbind⟩ := bindQueue_ok (s := s) (b := dlBinding) (by simp [dlBinding, h.dlx])
    (by simp [dlBinding, h.dlq])
  rw [ensureBinding_of_mem hbound h.binding] at hbind
  rw [declareAll, declareMainExchange, declareDlExchange, declareDlQueue, Prog.bind_ok hmain,
    Prog.bind_ok hdlx,
    Prog.bind_ok hdlq, hbind]

theorem declareAndBind_declared (hx : (s.exchange e.exchange).isSome = true) (h : Declared e s q) :
    declareAndBind e q s = (.ok (), s) := by
  have hdeclare := declareQueue_ok fun a ha => Option.some.inj (ha.symm.trans h.args)
  rw [ensureQueue_of_some h.args] at hdeclare
  obtain ⟨hbound, hbind⟩ := bindQueue_ok (s := s) (b := q.binding e) hx
    (by simp [QueueDeclaration.binding, h.args])
  rw [ensureBinding_of_mem hbound h.binding] at hbind
  rw [declareAndBind, Prog.bind_ok hdeclare, hbind]

/-- On a broker that has the queues declaring them changes nothing. -/
theorem declareControllerQueues_declared (hx : (s.exchange e.exchange).isSome = true)
    (h : ∀ q ∈ queues, Declared e s q) : declareControllerQueues e queues s = (.ok (), s) := by
  induction queues with
  | nil => rfl
  | cons q queues ih =>
    have hone : declareAndBindQueue e q s = (.ok (), s) :=
      Prog.tryExcept_ok (declareAndBind_declared hx (h q List.mem_cons_self)) _
    rw [declareControllerQueues, Prog.bind_ok hone]
    exact ih fun q' hq' => h q' (List.mem_cons_of_mem q hq')

/-- `get_main_exchange` and the other getters. -/
def getExchange (name : String) : Command μ Unit := fun s =>
  (if (s.exchange name).isSome then .ok () else .error .notFound, s)

def getQueue (name : String) : Command μ Unit := fun s =>
  (if (s.queueArgs name).isSome then .ok () else .error .notFound, s)

def getQueues : List String → Command μ Unit
  | [] => pure ()
  | name :: names => do
    getQueue name
    getQueues names

/-- `_verify_infrastructure` of the worker, over a connection. -/
def verifyInfrastructure (e : Flags) : Command μ Bool :=
  Prog.tryExcept
    (do getExchange e.exchange; getExchange deadLetterExchange; getQueue deadLetterQueue; pure true)
    fun _ => pure false

/-- `_initialize` of the beat worker. -/
def initializeBroker (e : Flags) (queueNames : List String) : Command μ Unit := do
  getExchange e.exchange
  getQueues queueNames

/-- The function ids of `_extract_scheduled_actions`: all that is decorated counts, on whatever
controller, and `keep` is the filter by scheduler names. -/
def scheduledFunctionIds (app : List PyClass) (keep : Controllers.ScheduledAction → Bool) :
    List String :=
  app.flatMap fun c => c.members.filterMap fun member =>
    (member.2.scheduledAction.filter keep).map fun _ => member.2.functionId

/-- A message bus controller declares the queues of its handlers and actions. -/
theorem controllerDeclarations_of_mem {c subject : PyClass} (hbus : c.busController = some subject)
    {name : String} {f : Controllers.PyFunction} (hf : c.getattr name = some f) :
    (handlerDeclaration f).toList ++ (actionDeclaration f).toList ⊆ controllerDeclarations c := by
  intro q hq
  rw [controllerDeclarations, hbus]
  exact List.mem_flatMap.mpr ⟨(name, f), Controllers.PyClass.mem_members.mpr hf, hq⟩

/-- Where the instances have kept the members, a consumer's queue is one that was declared. -/
theorem consumer_declared {app : List PyClass} {c : PyClass} (hc : c ∈ app)
    (hkept : ∀ subject, c.busController = some subject → MembersKept c subject) {x : Consumer}
    (hx : x ∈ QueueIdentity.consumersOf c) : ∃ q ∈ declarations app, q.queueName = x.queueName := by
  unfold QueueIdentity.consumersOf at hx
  cases hbus : c.busController with
  | none => simp [hbus] at hx
  | some subject =>
    have hnames := (QueueIdentity.namesAgree_iff subject).mpr (hkept subject hbus)
    rw [hbus] at hx
    obtain hhandler | haction := List.mem_append.mp hx
    · obtain ⟨d, hd, hxd⟩ := List.mem_filterMap.mp hhandler
      obtain ⟨member, hmember, hof⟩ := List.mem_filterMap.mp hd
      obtain ⟨y, hy, hdeclared⟩ := (hnames member hmember).1 d hof
      obtain rfl : y = x := Option.some.inj (hy.symm.trans hxd)
      obtain ⟨b, hb, hname⟩ := Option.map_eq_some_iff.mp hdeclared
      obtain ⟨f, hf, hfb⟩ := Option.bind_eq_some_iff.mp hb
      refine ⟨⟨b.queue, b.routingKey, false⟩, ?_, hname⟩
      refine List.mem_flatMap.mpr ⟨c, hc, controllerDeclarations_of_mem hbus hf ?_⟩
      simp [handlerDeclaration, hfb]
    · obtain ⟨d, hd, hxd⟩ := List.mem_filterMap.mp haction
      obtain ⟨member, hmember, hof⟩ := List.mem_filterMap.mp hd
      obtain ⟨y, hy, hdeclared, -⟩ := (hnames member hmember).2 d hof
      obtain rfl : y = x := Option.some.inj (hy.symm.trans hxd)
      obtain ⟨b, hb, hname⟩ := Option.map_eq_some_iff.mp hdeclared
      obtain ⟨f, hf, hfb⟩ := Option.bind_eq_some_iff.mp hb
      refine ⟨⟨b.queue, b.routingKey, true⟩, ?_, hname⟩
      refine List.mem_flatMap.mpr ⟨c, hc, controllerDeclarations_of_mem hbus hf ?_⟩
      simp [actionDeclaration, hfb]

/-- Where every controller with actions is a message bus controller, the queue of an action is one
that was declared. -/
theorem scheduled_declared {app : List PyClass} {keep : Controllers.ScheduledAction → Bool}
    (hbus : ∀ c ∈ app, ∀ member ∈ c.members, member.2.scheduledAction.isSome = true →
      c.busController.isSome = true) {name : String} (hname :
        name ∈ scheduledFunctionIds app keep) :
    ∃ q ∈ declarations app, q.queueName = name := by
  obtain ⟨c, hc, hof⟩ := List.mem_flatMap.mp hname
  obtain ⟨⟨key, f⟩, hmember, hid⟩ := List.mem_filterMap.mp hof
  obtain ⟨action, haction, rfl⟩ := Option.map_eq_some_iff.mp hid
  have hsome : f.scheduledAction = some action := (Option.filter_eq_some_iff.mp haction).1
  obtain ⟨subject, hsubject⟩ :=
    Option.isSome_iff_exists.mp (hbus c hc (key, f) hmember (by simp [hsome]))
  have hf := Controllers.PyClass.mem_members.mp hmember
  refine ⟨⟨f.functionId, f.functionId, true⟩, ?_, rfl⟩
  refine List.mem_flatMap.mpr ⟨c, hc, controllerDeclarations_of_mem hsubject hf ?_⟩
  simp [actionDeclaration, Controllers.declareScheduledActionQueue, hsome]

/-- If each look-up finds its queue, so do all. -/
theorem getQueues_found {names : List String} (h : ∀ name ∈ names, getQueue name s = (.ok (), s)) :
    getQueues names s = (.ok (), s) := by
  induction names with
  | nil => rfl
  | cons name names ih =>
    rw [getQueues, Prog.bind_ok (h name List.mem_cons_self)]
    exact ih fun name' hname' => h name' (List.mem_cons_of_mem name hname')

/-- Whatever the flags, a broker where everything is as it should be is left exactly as it is, and
passes the verification. The worker's consumers find their queues where no instance has replaced a
registered member by something else, and the beat worker where every controller with actions is a
message bus controller. -/
theorem complete_is_left_alone (e : Flags) (app : List PyClass) (s : Broker μ)
    (h : Complete e (declarations app) s) :
    declareWorkerInfrastructure e app s = (.ok (), s) ∧ verifyInfrastructure e s = (.ok true, s) ∧
      ((∀ c ∈ app, ∀ subject, c.busController = some subject → MembersKept c subject) →
        ∀ x ∈ QueueIdentity.consumers app, getQueue x.queueName s = (.ok (), s)) ∧
      ((∀ c ∈ app, ∀ member ∈ c.members, member.2.scheduledAction.isSome = true →
        c.busController.isSome = true) →
        ∀ keep, initializeBroker e (scheduledFunctionIds app keep) s = (.ok (), s)) := by
  have hx : (s.exchange e.exchange).isSome = true := by rw [h.shared.main]; rfl
  have hget : ∀ name, (∃ q ∈ declarations app, q.queueName = name) →
      getQueue name s = (.ok (), s) := by
    rintro name ⟨q, hq, rfl⟩
    rw [getQueue, (h.queues q hq).args]
    rfl
  have hmain : (getExchange e.exchange : Command μ Unit) s = (.ok (), s) := by
    rw [getExchange, hx]
    rfl
  refine ⟨?_, ?_, ?_, ?_⟩
  · have hcheck := checkInfrastructureExists_run (e := e) s
    rw [hx, h.shared.dlx, h.shared.dlq] at hcheck
    have hskip : Prog.when (!true && shouldRecreateInfrastructure e
        ("Existing infrastructure found for exchange '" ++ e.exchange ++ "'. Delete and recreate?"))
        (deleteInfrastructure e) s = (.ok (), s) := rfl
    have hsetup : setupInfrastructure e s = (.ok (), s) := by
      rw [setupInfrastructure, Prog.bind_ok hcheck]
      refine (Prog.bind_ok hskip _).trans ?_
      rw [declareInfrastructure, Prog.tryExcept_ok (declareAll_shared h.shared)]
    rw [declareWorkerInfrastructure, Prog.bind_ok hsetup,
      declareControllerQueues_declared hx h.queues]
  · have hdlx : (getExchange deadLetterExchange : Command μ Unit) s = (.ok (), s) := by
      rw [getExchange, h.shared.dlx]
      rfl
    have hdlq : (getQueue deadLetterQueue : Command μ Unit) s = (.ok (), s) := by
      rw [getQueue, h.shared.dlq]
      rfl
    rw [verifyInfrastructure, Prog.tryExcept_ok
      ((Prog.bind_ok hmain _).trans ((Prog.bind_ok hdlx _).trans (Prog.bind_ok hdlq _)))]
  · intro hkept x hx
    obtain ⟨c, hc, hxc⟩ := List.mem_flatMap.mp hx
    exact hget _ (consumer_declared hc (hkept c hc) hxc)
  · intro hbus keep
    rw [initializeBroker, Prog.bind_ok hmain]
    exact getQueues_found fun name hname => hget name (scheduled_declared hbus hname)

/-- The one consumer of the users' controller finds its queue. -/
theorem users_broker_is_left_alone :
    declareWorkerInfrastructure ⟨"app", true, false, fun _ => false⟩ [usersController]
      (usersBroker [1, 2]) =
        (.ok (), usersBroker [1, 2]) ∧
      (QueueIdentity.consumers [usersController]).map Consumer.queueName =
        ["user.app.Users.on_user"] ∧
      ∀ x ∈ QueueIdentity.consumers [usersController], getQueue x.queueName (usersBroker [1, 2]) =
        (.ok (), usersBroker [1, 2]) := by
  have hall :=
    complete_is_left_alone _ [usersController] (usersBroker [1, 2])
    (usersBroker_complete true [1, 2])
  refine ⟨hall.1, by decide, hall.2.2.1 ?_⟩
  intro c hc subject hsubject
  obtain rfl := List.mem_singleton.mp hc
  obtain rfl : usersController = subject := Option.some.inj hsubject
  intro member hmember
  have hf := Controllers.PyClass.mem_members.mp hmember
  exact ⟨fun handler hhandler => ⟨member.2, handler, hf, hhandler, rfl⟩,
    fun _ haction => ⟨member.2, hf, haction⟩⟩

end ForcedInfrastructure

import Jararaca.Interceptors

/-!
# The two modes of the publisher interceptor

`MessageBusPublisherInterceptor` collects the publisher calls of a transaction and
replays them into a connection at its end, or it is meant to give the connection itself
to the body. What both should come to is what the same calls leave in an
`AIOPikaMessagePublisher`. The messages of a body are mutable objects: a publisher keeps
the object of an immediate message and writes it at the flush, but where it writes a
delayed one, and which clock it reads, is not the same in both.
-/
namespace PublisherModes

open Programs Messages UnitOfWork Interceptors

/-- The local time of the process: its offset from UTC at each epoch second. -/
structure LocalZone where
  utcOffset : Int → Int

namespace LocalZone

/-- `time.localtime`, as the seconds its fields count from the epoch. -/
def localSeconds (z : LocalZone) (u : Int) : Int := u + z.utcOffset u

/-- The second a naive datetime with `fold=0` denotes, as `datetime.timestamp` finds it: it
tries the offsets in force around the datetime, and in a gap takes the later of the two. -/
def mktime (z : LocalZone) (t : Int) : Int :=
  let a := z.localSeconds t - t
  let u₁ := t - a
  let t₁ := z.localSeconds u₁
  let b := if t₁ = t then z.localSeconds (u₁ - 86400) - (u₁ - 86400) else t₁ - u₁
  if t₁ = t ∧ a = b then u₁
  else if z.localSeconds (t - b) = t then t - b
  else if t₁ = t then u₁
  else max u₁ (t - b)

/-- `(datetime.now(tz=None) + timedelta(seconds=seconds)).timestamp()`. -/
def delayed (z : LocalZone) (now : ℚ) (seconds : Int) : ℚ :=
  z.mktime (z.localSeconds ⌊now⌋ + seconds) + Int.fract now

/-- Without a change of the offset the local clock counts as UTC does. -/
theorem delayed_fixed (offset : Int) (now : ℚ) (seconds : Int) :
    delayed ⟨fun _ => offset⟩ now seconds = now + seconds := by
  have hsecond : mktime ⟨fun _ => offset⟩ (localSeconds ⟨fun _ => offset⟩ ⌊now⌋ + seconds) =
      ⌊now⌋ + seconds := by
    simp only [mktime, localSeconds]
    split_ifs <;> omega
  have hnow : now = ⌊now⌋ + Int.fract now := (Int.floor_add_fract now).symm
  rw [delayed, hsecond]
  push_cast
  linarith

end LocalZone

/-- What the names of a body stand for. The class of a message fixes its topic and its type. -/
abbrev Objects := Nat → BusMessage

/-- A step of a body that concerns its messages: a new content for one of them, or a call
on the publisher. -/
inductive BodyStep where
  | assign (object : Nat) (body : Bytes)
  | publish (object : Nat) (topic : String)
  | delay (object : Nat) (seconds : Int) (now : ℚ) (options : DelayOptions)
  | schedule (object : Nat) (instant : ℚ) (options : DelayOptions)

def BodyStep.isDelayed : BodyStep → Bool
  | .delay .. | .schedule .. => true
  | .assign .. | .publish .. => false

def assigned (objects : Objects) (object : Nat) (body : Bytes) : Objects :=
  Function.update objects object { objects object with body := body }

def after (objects : Objects) : BodyStep → Objects
  | .assign object body => assigned objects object body
  | _ => objects

def final (objects : Objects) (steps : List BodyStep) : Objects := steps.foldl after objects

/-- The call as the collector has it when it is filled into a connection: it kept the object. -/
def collected (objects : Objects) : BodyStep → Option StageCall
  | .assign .. => none
  | .publish object _ => some (.publish (objects object))
  | .delay object seconds now options => some (.delay (objects object) seconds now options)
  | .schedule object instant options => some (.schedule (objects object) instant options)

/-- The calls of a whole body, as the collector has them at the end. -/
def staged (objects : Objects) (steps : List BodyStep) : List StageCall :=
  steps.filterMap (collected (final objects steps))

/-- An `AIOPikaMessagePublisher` that a body calls directly. -/
structure DirectPublisher where
  stagedMessages : List Nat := []
  stagedDelayedMessages : List DelayedMessageData := []

def delayedData (message : BusMessage) (instant : ℚ) (options : DelayOptions) :
    DelayedMessageData :=
  scheduledData ⟨message, instant, options⟩

/-- `publish`, `delay` and `schedule` of `AIOPikaMessagePublisher`. -/
def DirectPublisher.call (zone : LocalZone) (hasBackend : Bool) (objects : Objects)
    (p : DirectPublisher) : BodyStep → Except PyExc DirectPublisher
  | .assign .. => .ok p
  | .publish object _ => .ok { p with stagedMessages := p.stagedMessages ++ [object] }
  | .delay object seconds now options =>
    if hasBackend then .ok { p with
      stagedDelayedMessages := p.stagedDelayedMessages ++
        [delayedData (objects object) (zone.delayed now seconds) options] }
    else .error (.error "NotImplementedError"
      "Delay is not implemented for AIOPikaMessagePublisher")
  | .schedule object instant options =>
    if hasBackend then .ok { p with
      stagedDelayedMessages := p.stagedDelayedMessages ++
        [delayedData (objects object) instant options] }
    else .error (.error "NotImplementedError"
      "Schedule is not implemented for AIOPikaMessagePublisher")

def DirectPublisher.run (zone : LocalZone) (hasBackend : Bool) :
    Objects → DirectPublisher → List BodyStep → Except PyExc DirectPublisher
  | _, p, [] => .ok p
  | objects, p, step :: steps => do
    let p ← p.call zone hasBackend objects step
    p.run zone hasBackend (after objects step) steps

/-- What the flush of the publisher finds: an immediate message is written only there. -/
def DirectPublisher.written (objects : Objects) (p : DirectPublisher) : AIOPikaMessagePublisher :=
  ⟨p.stagedMessages.map objects, p.stagedDelayedMessages⟩

/-- What direct calls on a fresh publisher would leave for its flush. -/
def directCalls (zone : LocalZone) (hasBackend : Bool) (objects : Objects) (steps : List BodyStep) :
    Except PyExc AIOPikaMessagePublisher :=
  (DirectPublisher.run zone hasBackend objects {} steps).map
    (DirectPublisher.written (final objects steps))

/-- `context_type` of the transaction data. -/
inductive ContextType where
  | scheduler | http | messageBus | websocket
  deriving DecidableEq, Repr

/-- A `MessageBusPublisherInterceptor` in a transaction; `hasBackend` is whether its
connection factory has a broker backend. -/
structure PublisherInterceptor where
  contextType : ContextType
  connectionName : String := "default"
  openConnectionAtEndOfTransaction : Bool := false
  hasBackend : Bool := true

/-- A publisher in `message_publishers_ctx`: the one of this interceptor, or one that an
enclosing block provides. -/
inductive Provided (π : Type) where
  | own
  | outer (publisher : π)

namespace PublisherInterceptor

variable {π : Type} (i : PublisherInterceptor)

/-- `message_publishers_ctx` at the yield of `intercept`. -/
def publishersInside (outer : String → Option π) : String → Option (Provided π) :=
  let enclosing := fun name => (outer name).map Provided.outer
  if i.contextType = .websocket then enclosing
  else if i.openConnectionAtEndOfTransaction then
    Function.update enclosing i.connectionName (some .own)
  else enclosing

def intercept (env : ConnectionEnv) (t : Transaction) : Context Effect :=
  if i.contextType = .websocket then Context.ofGenerator (pure ()) passThrough
  else (messageBusPublisherInterceptor i.openConnectionAtEndOfTransaction env).intercept t

/-- The connection the interceptor flushes after a body with these calls, as it was filled. -/
def filled (calls : List StageCall) : Option (Except PyExc AIOPikaMessagePublisher) :=
  if i.contextType = .websocket then none
  else if i.openConnectionAtEndOfTransaction then
    let collector := MessagePublisherCollector.ofCalls calls
    if collector.hasMessages then some (collector.fill i.hasBackend) else none
  else some (.ok {})

end PublisherInterceptor

def usePublisher {α : Type} (publishers : String → Option α) (connectionName : String) :
    Except PyExc α :=
  match publishers connectionName with
  | none =>
    .error (.error "ValueError" ("MessagePublisher not found for connection " ++ connectionName))
  | some publisher => .ok publisher

/-- What the flush of a filled connection sends; without a connection, nothing. -/
def flushedEffects (env : ConnectionEnv) (implicit : Headers) :
    Option (Except PyExc AIOPikaMessagePublisher) → List Effect
  | none => []
  | some r => (provideConnection env (do
      let publisher ← Prog.ofExcept r
      flush implicit env publisher) []).2

/-- The exit of the interceptor is the flush of the connection it filled. -/
theorem intercept_flushes (i : PublisherInterceptor) (env : ConnectionEnv)
    (henv : env.hasBackend = i.hasBackend) (implicit : Headers) (calls : List StageCall) :
    ((i.intercept env ⟨implicit, calls⟩).exit none).2 =
      flushedEffects env implicit (i.filled calls) := by
  unfold PublisherInterceptor.intercept PublisherInterceptor.filled
  by_cases hweb : i.contextType = .websocket
  · simp [hweb, Context.ofGenerator_exit_effects, passThrough, flushedEffects]
  · rw [if_neg hweb, if_neg hweb, messageBusPublisherInterceptor, Context.ofGenerator_exit_effects]
    cases hend : i.openConnectionAtEndOfTransaction with
    | false => rfl
    | true =>
      cases hmsgs : (MessagePublisherCollector.ofCalls calls).hasMessages with
      | false => simp [publisherAfter, hmsgs, flushedEffects]
      | true => simp [publisherAfter, hmsgs, flushedEffects, henv]

/-- A transaction that fails hands nothing over. -/
theorem intercept_failed (i : PublisherInterceptor) (env : ConnectionEnv) (t : Transaction)
    (e : PyExc) :
    ((i.intercept env t).exit (some e)).2 = [] := by
  unfold PublisherInterceptor.intercept
  split
  · simp [Context.ofGenerator_exit_effects, passThrough]
  · exact publisher_exit_failed _ _ _ _

def published (steps : List BodyStep) : List Nat :=
  steps.filterMap fun
    | .publish object _ => some object
    | _ => none

/-- The delayed messages of the collector, as they are when it is filled into a connection. -/
def collectedDelayed (objects : Objects) (steps : List BodyStep) :
    List CollectorDelayedMessageData :=
  steps.filterMap fun
    | .delay object seconds now options => some ⟨objects object, now + seconds, options⟩
    | .schedule object instant options => some ⟨objects object, instant, options⟩
    | _ => none

def directDelayed (zone : LocalZone) : Objects → List BodyStep → List DelayedMessageData
  | _, [] => []
  | objects, .delay object seconds now options :: steps =>
    delayedData (objects object)
      (zone.delayed now seconds) options :: directDelayed zone objects steps
  | objects, .schedule object instant options :: steps =>
    delayedData (objects object) instant options :: directDelayed zone objects steps
  | objects, .assign object body :: steps => directDelayed zone (assigned objects object body) steps
  | objects, .publish _ _ :: steps => directDelayed zone objects steps

/-- Every delayed message still has at the end the content it had at its call, and every
delay comes to the same second on the local clock as on the UTC clock. -/
def Steady (zone : LocalZone) (last : Objects) : Objects → List BodyStep → Prop
  | _, [] => True
  | objects, .delay object seconds now _ :: steps =>
    ((objects object).body = (last object).body ∧
      truncate (zone.delayed now seconds) = truncate (now + seconds)) ∧
        Steady zone last objects steps
  | objects, .schedule object _ _ :: steps =>
    (objects object).body = (last object).body ∧ Steady zone last objects steps
  | objects, .assign object body :: steps => Steady zone last (assigned objects object body) steps
  | objects, .publish _ _ :: steps => Steady zone last objects steps

/-- The collector holds every call once, in the order of the calls. -/
theorem stage_all (last : Objects) (steps : List BodyStep) (c : MessagePublisherCollector) :
    (steps.filterMap (collected last)).foldl MessagePublisherCollector.stage c =
      ⟨c.stagedMessages ++ (published steps).map last,
        c.stagedDelayedMessages ++ collectedDelayed last steps⟩ := by
  induction steps generalizing c with
  | nil => simp [published, collectedDelayed]
  | cons step steps ih =>
    cases step with
    | assign object body =>
      change (steps.filterMap (collected last)).foldl _ c = _
      rw [ih]
      rfl
    | publish object topic =>
      change (steps.filterMap (collected last)).foldl _ (c.stage (.publish (last object))) = _
      rw [ih]
      simp [MessagePublisherCollector.stage, published, collectedDelayed]
    | delay object seconds now options =>
      change (steps.filterMap (collected last)).foldl _
        (c.stage (.delay (last object) seconds now options)) = _
      rw [ih]
      simp [MessagePublisherCollector.stage, published, collectedDelayed]
    | schedule object instant options =>
      change (steps.filterMap (collected last)).foldl _
        (c.stage (.schedule (last object) instant options)) = _
      rw [ih]
      simp [MessagePublisherCollector.stage, published, collectedDelayed]

theorem ofCalls_staged (objects : Objects) (steps : List BodyStep) :
    MessagePublisherCollector.ofCalls (staged objects steps) =
      ⟨(published steps).map (final objects steps),
        collectedDelayed (final objects steps) steps⟩ := by
  simp [MessagePublisherCollector.ofCalls, staged, stage_all]

/-- Direct calls stage every message once, unless a delayed one meets no backend. -/
theorem run_eq (zone : LocalZone) (hasBackend : Bool) (objects : Objects) (p : DirectPublisher)
    (steps : List BodyStep) (h : hasBackend = true ∨ ∀ step ∈ steps, step.isDelayed = false) :
    p.run zone hasBackend objects steps =
      .ok ⟨p.stagedMessages ++ published steps,
        p.stagedDelayedMessages ++ directDelayed zone objects steps⟩ := by
  induction steps generalizing objects p with
  | nil => simp [DirectPublisher.run, published, directDelayed]
  | cons step steps ih =>
    have hrest : hasBackend = true ∨ ∀ step ∈ steps, step.isDelayed = false := by
      refine h.imp_right fun hnone step hstep => hnone step ?_
      exact List.mem_cons_of_mem _ hstep
    have hstep : step.isDelayed = true → hasBackend = true := by
      intro hdelayed
      refine h.resolve_right fun hnone => ?_
      rw [hnone step List.mem_cons_self] at hdelayed
      cases hdelayed
    rw [DirectPublisher.run]
    cases step with
    | assign object body =>
      change p.run zone hasBackend _ steps = _
      rw [ih _ _ hrest]
      rfl
    | publish object topic =>
      change DirectPublisher.run zone hasBackend _ _ steps = _
      rw [ih _ _ hrest]
      simp [published, directDelayed, after]
    | delay object seconds now options =>
      rw [DirectPublisher.call, if_pos (hstep rfl)]
      change DirectPublisher.run zone hasBackend _ _ steps = _
      rw [ih _ _ hrest]
      simp [published, directDelayed, after]
    | schedule object instant options =>
      rw [DirectPublisher.call, if_pos (hstep rfl)]
      change DirectPublisher.run zone hasBackend _ _ steps = _
      rw [ih _ _ hrest]
      simp [published, directDelayed, after]

/-- Without a backend the first delayed message raises. -/
theorem run_raises (zone : LocalZone) (objects : Objects) (p : DirectPublisher)
    {steps : List BodyStep} {step : BodyStep} (hmem : step ∈ steps)
    (hdelayed : step.isDelayed = true) :
    ∃ e, p.run zone false objects steps = .error e := by
  induction steps generalizing objects p with
  | nil => cases hmem
  | cons first steps ih =>
    rw [DirectPublisher.run]
    cases first with
    | assign object body =>
      obtain rfl | hrest := List.mem_cons.mp hmem
      · cases hdelayed
      · exact ih _ _ hrest
    | publish object topic =>
      obtain rfl | hrest := List.mem_cons.mp hmem
      · cases hdelayed
      · exact ih _ _ hrest
    | delay object seconds now options => exact ⟨_, rfl⟩
    | schedule object instant options => exact ⟨_, rfl⟩

theorem delayedData_eq_iff {m m' : BusMessage} {instant instant' : ℚ} {options : DelayOptions}
    (htopic : m.topic = m'.topic) :
    delayedData m instant options = scheduledData ⟨m', instant', options⟩ ↔
      m.body = m'.body ∧ truncate instant = truncate instant' := by
  simp [delayedData, scheduledData, htopic, and_comm]

theorem after_topic (objects : Objects) (step : BodyStep) (object : Nat) :
    (after objects step object).topic = (objects object).topic := by
  cases step with
  | assign changed body =>
    by_cases h : object = changed
    · simp [after, assigned, h]
    · simp [after, assigned, h]
  | publish changed topic => rfl
  | delay changed seconds now options => rfl
  | schedule changed instant options => rfl

/-- The body does not change the topic of an object. -/
theorem final_topic (objects : Objects) (steps : List BodyStep) (object : Nat) :
    (final objects steps object).topic = (objects object).topic := by
  induction steps generalizing objects with
  | nil => rfl
  | cons step steps ih => exact (ih (after objects step)).trans (after_topic objects step object)

/-- The replay of the delayed messages agrees with the direct calls where each message does. -/
theorem replay_iff (zone : LocalZone) (last : Objects) (objects : Objects) (steps : List BodyStep)
    (htopic : ∀ object, (objects object).topic = (last object).topic) :
    directDelayed zone objects steps = (collectedDelayed last steps).map scheduledData ↔
      Steady zone last objects steps := by
  induction steps generalizing objects with
  | nil => simp [directDelayed, collectedDelayed, Steady]
  | cons step steps ih =>
    cases step with
    | assign object body =>
      have htopic' : ∀ other, (assigned objects object body other).topic = (last other).topic :=
        fun other => (after_topic objects (.assign object body) other).trans (htopic other)
      rw [directDelayed, Steady, ← ih _ htopic']
      rfl
    | publish object topic =>
      rw [directDelayed, Steady, ← ih objects htopic]
      rfl
    | delay object seconds now options =>
      rw [directDelayed, Steady, ← ih objects htopic, ← delayedData_eq_iff (htopic object)]
      exact List.cons_eq_cons
    | schedule object instant options =>
      have hdata : delayedData (objects object) instant options =
          scheduledData ⟨last object, instant, options⟩ ↔
            (objects object).body = (last object).body := by
        rw [delayedData_eq_iff (htopic object), and_iff_left rfl]
      rw [directDelayed, Steady, ← ih objects htopic, ← hdata]
      exact List.cons_eq_cons

section Modes

variable {π : Type} (i : PublisherInterceptor) (outer : String → Option π) (zone : LocalZone)
  (objects : Objects) (steps : List BodyStep)

/-- The interceptor stands for a publisher that the body calls directly: it is there during
the body, after a body that returns a connection filled with just what direct calls leave
is flushed (none, where they leave nothing), and after a body that raises nothing is sent. -/
structure StandsForDirect : Prop where
  available : usePublisher (i.publishersInside outer) i.connectionName = .ok .own
  handed : ∃ p, directCalls zone i.hasBackend objects steps = .ok p ∧
    (i.filled (staged objects steps)).getD (.ok {}) = .ok p
  flushed : ∀ env implicit, env.hasBackend = i.hasBackend →
    ((i.intercept env ⟨implicit, staged objects steps⟩).exit none).2 =
      flushedEffects env implicit (i.filled (staged objects steps))
  failed : ∀ env implicit e,
    ((i.intercept env ⟨implicit, staged objects steps⟩).exit (some e)).2 = []

/-- The transactions in which the interceptor does so. -/
structure Collects : Prop where
  notWebsocket : i.contextType ≠ .websocket
  atEnd : i.openConnectionAtEndOfTransaction = true
  backend : i.hasBackend = true ∨ ∀ step ∈ steps, step.isDelayed = false
  steady : Steady zone (final objects steps) objects steps

/-- The interceptor provides a publisher only where it collects. -/
theorem available_iff :
    usePublisher (i.publishersInside outer) i.connectionName = .ok .own ↔
      i.contextType ≠ .websocket ∧ i.openConnectionAtEndOfTransaction = true := by
  have houter : usePublisher (fun name => (outer name).map Provided.outer) i.connectionName ≠
      .ok .own := by
    cases h : outer i.connectionName with
    | none => simp [usePublisher, h]
    | some publisher => simp [usePublisher, h]
  unfold PublisherInterceptor.publishersInside
  by_cases hweb : i.contextType = .websocket
  · simp [hweb, houter]
  · cases hend : i.openConnectionAtEndOfTransaction with
    | false => simp [hweb, houter]
    | true => simp [hweb, usePublisher]

variable {i} {zone} {objects} {steps}

/-- What a collecting interceptor fills its connection with. -/
theorem filled_eq (hweb : i.contextType ≠ .websocket)
    (hend : i.openConnectionAtEndOfTransaction = true)
    (hback : i.hasBackend = true ∨ ∀ step ∈ steps, step.isDelayed = false) :
    (i.filled (staged objects steps)).getD (.ok {}) =
      .ok ⟨(published steps).map (final objects steps),
        (collectedDelayed (final objects steps) steps).map scheduledData⟩ := by
  have hdelayed : i.hasBackend = true ∨ collectedDelayed (final objects steps) steps = [] := by
    refine hback.imp_right fun hnone => ?_
    rw [collectedDelayed, List.filterMap_eq_nil_iff]
    intro step hstep
    have hstep := hnone step hstep
    cases step <;> simp [BodyStep.isDelayed] at hstep ⊢
  rw [PublisherInterceptor.filled, if_neg hweb, if_pos hend, ofCalls_staged]
  cases hmsgs : MessagePublisherCollector.hasMessages ⟨(published steps).map (final objects steps),
      collectedDelayed (final objects steps) steps⟩ with
  | false =>
    have hnone : published steps = [] ∧ collectedDelayed (final objects steps) steps = [] := by
      simpa [MessagePublisherCollector.hasMessages] using hmsgs
    simp [hnone.1, hnone.2, MessagePublisherCollector.hasMessages]
  | true =>
    dsimp only
    rw [if_pos hmsgs, Option.getD_some]
    obtain hb | hnil := hdelayed
    · simp [MessagePublisherCollector.fill, hb]
    · simp [MessagePublisherCollector.fill, hnil]

variable (i) (zone) (objects) (steps)

/-- The interceptor stands for a publisher that is called directly, exactly where it flushes at
the end of the transaction, has the backend that delayed messages need, and the body leaves its
objects as they were staged. -/
theorem stands_for_direct_iff :
    StandsForDirect i outer zone objects steps ↔ Collects i zone objects steps := by
  constructor
  · intro h
    obtain ⟨hweb, hend⟩ := (available_iff i outer).mp h.available
    obtain ⟨p, hdirect, hfilled⟩ := h.handed
    have hback : i.hasBackend = true ∨ ∀ step ∈ steps, step.isDelayed = false := by
      by_contra hnone
      obtain ⟨hb, hsome⟩ := not_or.mp hnone
      obtain ⟨step, hstep, hdelayed⟩ : ∃ step ∈ steps, step.isDelayed = true := by
        simpa using hsome
      obtain ⟨e, hraises⟩ := run_raises zone objects {} hstep hdelayed
      rw [directCalls, Bool.eq_false_iff.mpr hb, hraises] at hdirect
      cases hdirect
    refine ⟨hweb, hend, hback, ?_⟩
    rw [filled_eq hweb hend hback] at hfilled
    rw [directCalls, run_eq zone _ objects {} steps hback, ← hfilled] at hdirect
    have hsame : directDelayed zone objects steps =
        (collectedDelayed (final objects steps) steps).map scheduledData := by
      simpa [Except.map, DirectPublisher.written] using hdirect
    exact (replay_iff zone _ objects steps fun object =>
      (final_topic objects steps object).symm).mp hsame
  · intro h
    have hsame := (replay_iff zone _ objects steps fun object =>
      (final_topic objects steps object).symm).mpr h.steady
    have hdirect : directCalls zone i.hasBackend objects steps =
        .ok ⟨(published steps).map (final objects steps),
          (collectedDelayed (final objects steps) steps).map scheduledData⟩ := by
      rw [directCalls, run_eq zone _ objects {} steps h.backend, ← hsame]
      simp [Except.map, DirectPublisher.written]
    refine ⟨(available_iff i outer).mpr ⟨h.notWebsocket, h.atEnd⟩,
      ⟨_, hdirect, filled_eq h.notWebsocket h.atEnd h.backend⟩, ?_, ?_⟩
    · intro env implicit henv
      exact intercept_flushes i env henv implicit _
    · intro env implicit e
      exact intercept_failed i env _ e

end Modes

/-- A message and an interceptor with the default mode. -/
def welcome : Objects := fun _ => ⟨"user.created", [], false⟩

def defaultMode : PublisherInterceptor where
  contextType := .http

/-- In the default mode the body has no publisher. -/
theorem default_mode_without_publisher :
    ¬StandsForDirect defaultMode (fun _ => (none : Option Unit)) ⟨fun _ => 0⟩ welcome
      [.publish 0 "user.created"] := by
  intro h
  have havailable := h.available
  simp [usePublisher, PublisherInterceptor.publishersInside, defaultMode] at havailable

end PublisherModes

import Jararaca.NestedContexts

/-!
# The documented atomic layer

The interceptor order of docs/interceptors.md: the message publisher, then the database
session, then the websocket sender. Contexts are exited in reverse, so the websocket
messages are flushed before the database commits and the bus messages after it. The
effects of one transaction are read off its trace.
-/
namespace AtomicLayer

open Programs Messages UnitOfWork Interceptors NestedContexts

/-- What the other systems answer in one transaction. -/
structure Layer where
  implicit : Headers := Headers.empty
  connection : String := "default"
  session : SessionEnv := {}
  atEnd : Bool := true
  bus : ConnectionEnv := {}
  websocket : WebSocketEnv := {}

/-- What the body does: how it ends, whether it commits the transaction by itself, and
what it stages. -/
structure Body where
  outcome : Reply := .ok ()
  commits : Bool := false
  staged : List StageCall := []
  websocketStaged : List WebSocketMessage := []

/-- The documented order. -/
def interceptors (l : Layer) (b : Body) : List Interceptor :=
  [messageBusPublisherInterceptor l.atEnd l.bus,
    aioSqlAlchemySessionInterceptor l.connection l.session,
    webSocketInterceptor l.websocket b.websocketStaged]

/-- The body inside the layer; a commit of its own stands at the place of the session. -/
def bodyProgram (l : Layer) (b : Body) : Prog (List (UowEvent Effect)) PyExc Unit := do
  Prog.when b.commits (Prog.modify (Traced.record [.effect 2 (.commit l.connection)]))
  Prog.ofExcept b.outcome

def transaction (l : Layer) (b : Body) : Prog (List (UowEvent Effect)) PyExc Unit :=
  unitOfWork (contextsOf l.implicit b.staged (interceptors l b)) (bodyProgram l b)

def effectsOf (events : List (UowEvent Effect)) : List Effect :=
  events.filterMap fun
    | .effect _ a => some a
    | _ => none

def effects (l : Layer) (b : Body) : List Effect := effectsOf (transaction l b []).2

/-- The documented place of an effect: the commit, then the bus, then the websockets. -/
def stage : Effect → Option Nat
  | .commit _ => some 0
  | .published _ | .scheduled _ => some 1
  | .sent _ _ => some 2
  | _ => none

/-- The effects `es` have one of the `k`-th stage. -/
def Hands (k : Nat) (es : List Effect) : Prop := ∃ a ∈ es, stage a = some k

/-- What the documentation promises of the effects of a body that ended with `outcome`:
messages are handed over only after a successful body and a commit, and the stages
follow one another. -/
structure Atomic (outcome : Reply) (es : List Effect) : Prop where
  afterCommit : Hands 1 es ∨ Hands 2 es → outcome = .ok () ∧ Hands 0 es
  ordered : (es.filterMap stage).Pairwise (· ≤ ·)

/-- `for m in ms: send it`, with the answers of the receiver. -/
def handAll {α : Type} (sends : Nat → Reply) (effect : Nat → α → Effect) :
    Nat → List α → Prog (List Effect) PyExc Unit
  | _, [] => pure ()
  | n, m :: ms => do
    Prog.ofExcept (sends n)
    emit (effect n m)
    handAll sends effect (n + 1) ms

theorem sendAll_eq (env : WebSocketEnv) (n : Nat) (ms : List WebSocketMessage) :
    sendAll env n ms = handAll env.sends (fun _ m => .sent m.rooms m.message) n ms := by
  induction ms generalizing n with
  | nil => rfl
  | cons m ms ih => rw [sendAll, handAll, ih]

theorem publishAll_eq (implicit : Headers) (env : ConnectionEnv) (n : Nat) (ms : List BusMessage) :
    publishAll implicit env n ms =
      handAll env.sends (fun n m => .published (outgoing implicit (env.span n) m)) n ms := by
  induction ms generalizing n with
  | nil => rfl
  | cons m ms ih => rw [publishAll, handAll, ih]

theorem scheduleAll_eq (implicit : Headers) (env : ConnectionEnv) (n : Nat)
    (ds : List DelayedMessageData) :
    scheduleAll implicit env n ds =
      handAll env.sends (fun n d =>
        .scheduled (withPublishHeaders implicit (env.span n) d)) n ds := by
  induction ds generalizing n with
  | nil => rfl
  | cons d ds ih => rw [scheduleAll, handAll, ih]

/-- One flush: it hands over something exactly if the first send succeeds, all of one
stage, and ends normally exactly if every send does. -/
theorem handAll_run {α : Type} (sends : Nat → Reply) (effect : Nat → α → Effect) {k : Nat}
    (hk : ∀ n m, stage (effect n m) = some k) (n : Nat) (ms : List α) (es : List Effect) :
    ∃ handed, (handAll sends effect n ms es).2 = es ++ handed ∧
      (∀ a ∈ handed, stage a = some k) ∧ (handed ≠ [] ↔ ms ≠ [] ∧ sends n = .ok ()) ∧
      ((handAll sends effect n ms es).1 = .ok () ↔ ∀ i < ms.length, sends (n + i) = .ok ()) := by
  induction ms generalizing n es with
  | nil => exact ⟨[], by simp [handAll], by simp, by simp, by simp [handAll]⟩
  | cons m ms ih =>
    cases hs : sends n with
    | error e =>
      have hrun : handAll sends effect n (m :: ms) es = (.error e, es) := by
        simp [handAll, Prog.bind_run, hs]
      refine ⟨[], by rw [hrun, List.append_nil], by simp, by simp, ?_⟩
      rw [hrun]
      constructor
      · intro h
        cases h
      · intro h
        have h0 := h 0 (by simp)
        rw [Nat.add_zero, hs] at h0
        cases h0
    | ok u =>
      have hrun : handAll sends effect n (m :: ms) es =
          handAll sends effect (n + 1) ms (es ++ [effect n m]) := by
        simp [handAll, Prog.bind_run, hs, emit]
      obtain ⟨handed, heff, hstage, -, hok⟩ := ih (n + 1) (es ++ [effect n m])
      refine ⟨effect n m :: handed, by rw [hrun, heff]; simp, ?_, by simp, ?_⟩
      · intro a ha
        obtain rfl | ha := List.mem_cons.mp ha
        · exact hk n m
        · exact hstage a ha
      · rw [hrun, hok]
        constructor
        · intro h i hi
          cases i with
          | zero => simpa using hs
          | succ i =>
            have hi' := h i (by simpa using hi)
            rwa [Nat.add_right_comm] at hi'
        · intro h i hi
          have hi' := h (i + 1) (by simpa using hi)
          rwa [← Nat.add_assoc, Nat.add_right_comm] at hi'

/-- Everything staged in `es` belongs to the `k`-th stage. -/
def Only (k : Nat) (es : List Effect) : Prop := ∀ a ∈ es, ∀ j, stage a = some j → j = k

section Generators

variable {before : Prog (List Effect) PyExc Unit}
  {after : Option PyExc → Prog (List Effect) PyExc Unit}

theorem ofGenerator_passes_none :
    pendingAfter none ((Context.ofGenerator before after).exit none).1 = none ↔
      (after none []).1 = .ok () := by
  cases hr : after none [] with
  | mk r es => cases r <;> simp [Context.ofGenerator, hr, pendingAfter]

theorem ofGenerator_passes_some {e : PyExc} (h : ∃ raised, (after (some e) []).1 = .error raised) :
    ∃ raised, pendingAfter (some e) ((Context.ofGenerator before after).exit (some e)).1 =
      some raised := by
  obtain ⟨raised, hr⟩ := h
  cases hrun : after (some e) [] with
  | mk r es =>
    rw [hrun] at hr
    cases hr
    by_cases he : raised = e <;> simp [Context.ofGenerator, hrun, pendingAfter, he]

end Generators

section Websocket

variable (env : WebSocketEnv) (staged : List WebSocketMessage) (t : Transaction)

/-- The websocket context flushes after a body without exception. -/
theorem websocket_exit_none :
    let c := (webSocketInterceptor env staged).intercept t
    Only 2 (c.exit none).2 ∧
      (Hands 2 (c.exit none).2 ↔ staged ≠ [] ∧ env.sends 0 = .ok ()) ∧
      (pendingAfter none (c.exit none).1 = none ↔ ∀ i < staged.length, env.sends i = .ok ()) := by
  intro c
  obtain ⟨handed, heff, hstage, hsome, hok⟩ := handAll_run env.sends
    (fun _ m => .sent m.rooms m.message) (k := 2) (fun _ _ => rfl) 0 staged []
  rw [List.nil_append, ← sendAll_eq] at heff
  rw [← sendAll_eq] at hok
  simp only [Nat.zero_add] at hok
  have hexit : (c.exit none).2 = handed := by
    rw [← heff]
    exact Context.ofGenerator_exit_effects ..
  rw [hexit]
  refine ⟨?_, ?_, ?_⟩
  · intro a ha j hj
    rw [hstage a ha] at hj
    cases hj
    rfl
  · rw [← hsome]
    constructor
    · rintro ⟨a, ha, -⟩ hnil
      rw [hnil] at ha
      cases ha
    · intro hne
      obtain ⟨a, ha⟩ := List.exists_mem_of_ne_nil _ hne
      exact ⟨a, ha, hstage a ha⟩
  · rw [← hok]
    exact ofGenerator_passes_none

theorem websocket_exit_some (e : PyExc) :
    ((webSocketInterceptor env staged).intercept t).exit (some e) = (.ok false, []) := by
  simp [webSocketInterceptor, Context.ofGenerator]

end Websocket

section Session

variable (connection : String) (env : SessionEnv) (t : Transaction)

/-- The session context commits a transaction that is still active. -/
theorem session_exit_none :
    let c := (aioSqlAlchemySessionInterceptor connection env).intercept t
    Only 0 (c.exit none).2 ∧
      (Hands 0 (c.exit none).2 ↔
        env.usesConnection = true ∧ env.txActive = true ∧ env.commit = .ok ()) ∧
      (pendingAfter none (c.exit none).1 = none ↔
        env.usesConnection = false ∨ env.txActive = false ∨ env.commit = .ok ()) := by
  intro c
  cases hu : env.usesConnection with
  | false =>
    have hc : c = Context.ofGenerator (pure ()) passThrough := by
      simp [c, aioSqlAlchemySessionInterceptor, hu]
    rw [hc, Context.ofGenerator_exit_effects, ofGenerator_passes_none]
    simp [passThrough, Only, Hands]
  | true =>
    have hc : c = Context.ofGenerator (Prog.ofExcept env.begins) (sessionAfter connection env) := by
      simp [c, aioSqlAlchemySessionInterceptor, hu]
    rw [hc, Context.ofGenerator_exit_effects, ofGenerator_passes_none]
    cases ha : env.txActive with
    | false => simp [sessionAfter, ha, Only, Hands]
    | true =>
      cases hcommit : env.commit with
      | ok u =>
        cases hs : env.sessionActive <;>
          simp [sessionAfter, ha, hs, hcommit, Prog.bind_run, Prog.tryExcept, emit, Only,
            Hands, stage]
      | error e =>
        cases hs : env.sessionActive with
        | false => simp [sessionAfter, ha, hs, hcommit, Prog.bind_run, Only, Hands]
        | true =>
          cases hafter : env.txActiveAfterFailedCommit with
          | false =>
            simp [sessionAfter, ha, hs, hcommit, hafter, rollbackAndRaise, Prog.bind_run,
              Prog.tryExcept, Only, Hands]
          | true =>
            cases hr : env.rollback <;>
              simp [sessionAfter, ha, hs, hcommit, hafter, hr, rollbackAndRaise, Prog.bind_run,
                Prog.tryExcept, emit, Only, Hands, stage]

/-- A session that is exited with an exception commits nothing and lets none pass. -/
theorem session_exit_some (e : PyExc) :
    let c := (aioSqlAlchemySessionInterceptor connection env).intercept t
    (∀ a ∈ (c.exit (some e)).2, stage a = none) ∧
      ∃ raised, pendingAfter (some e) (c.exit (some e)).1 = some raised := by
  intro c
  constructor
  · rw [session_exit_failed]
    split <;> simp [stage]
  · cases hu : env.usesConnection with
    | false =>
      have hc : c = Context.ofGenerator (pure ()) passThrough := by
        simp [c, aioSqlAlchemySessionInterceptor, hu]
      rw [hc]
      exact ofGenerator_passes_some ⟨e, rfl⟩
    | true =>
      have hc : c = Context.ofGenerator (Prog.ofExcept env.begins)
        (sessionAfter connection env) := by
        simp [c, aioSqlAlchemySessionInterceptor, hu]
      rw [hc]
      apply ofGenerator_passes_some
      rw [sessionAfter, rollbackAndRaise]
      cases env.txActive with
      | false => exact ⟨e, by simp [Prog.bind_run]⟩
      | true =>
        cases env.rollback with
        | ok u => exact ⟨e, by simp [Prog.bind_run, emit]⟩
        | error e' => exact ⟨e', by simp [Prog.bind_run]⟩

end Session

section Bus

/-- A flush of the publisher, when its delayed messages have a backend. -/
theorem flush_run (implicit : Headers) (env : ConnectionEnv) (p : AIOPikaMessagePublisher)
    (es : List Effect) (hb : p.stagedDelayedMessages = [] ∨ env.hasBackend = true) :
    ∃ handed, (flush implicit env p es).2 = es ++ handed ∧ (∀ a ∈ handed, stage a = some 1) ∧
      (handed ≠ [] ↔ (p.stagedMessages ≠ [] ∨ p.stagedDelayedMessages ≠ []) ∧
        env.sends 0 = .ok ()) := by
  obtain ⟨first, heff, hstage, hsome, hok⟩ := handAll_run env.sends
    (fun n m => .published (outgoing implicit (env.span n) m)) (k := 1) (fun _ _ => rfl) 0
    p.stagedMessages es
  rw [← publishAll_eq] at heff hok
  have hback : (!p.stagedDelayedMessages.isEmpty && !env.hasBackend) = false := by
    obtain hnil | hback := hb
    · simp [hnil]
    · simp [hback]
  cases hrun : publishAll implicit env 0 p.stagedMessages es with
  | mk r es' =>
    rw [hrun] at heff hok
    cases heff
    cases r with
    | error e =>
      have hflush : flush implicit env p es = (.error e, es ++ first) := Prog.bind_error hrun _
      refine ⟨first, by rw [hflush], hstage, ?_⟩
      rw [hsome]
      constructor
      · rintro ⟨hne, hs⟩
        exact ⟨.inl hne, hs⟩
      · rintro ⟨-, hs⟩
        refine ⟨?_, hs⟩
        intro hnil
        rw [hnil] at hok
        exact absurd (hok.mpr (by simp)) (by simp)
    | ok u =>
      obtain ⟨second, heff', hstage', hsome', -⟩ := handAll_run env.sends
        (fun n d => .scheduled (withPublishHeaders implicit (env.span n) d)) (k := 1)
        (fun _ _ => rfl) p.stagedMessages.length p.stagedDelayedMessages (es ++ first)
      rw [← scheduleAll_eq] at heff'
      have hflush : (flush implicit env p es).2 = es ++ (first ++ second) := by
        rw [flush, Prog.bind_ok hrun, hback, Prog.when_false]
        exact heff'.trans (List.append_assoc ..)
      refine ⟨first ++ second, hflush, ?_, ?_⟩
      · intro a ha
        obtain ha | ha := List.mem_append.mp ha
        · exact hstage a ha
        · exact hstage' a ha
      · have hall := hok.mp rfl
        rw [ne_eq, List.append_eq_nil_iff, not_and_or, ← ne_eq, ← ne_eq, hsome, hsome']
        cases hm : p.stagedMessages with
        | nil => simp
        | cons m ms =>
          have h0 : env.sends 0 = .ok () := by simpa using hall 0 (by simp [hm])
          simp [h0]

/-- The connection adds a commit or a rollback of the broker's own transaction. -/
theorem provideConnection_effects (env : ConnectionEnv) (m : Prog (List Effect) PyExc Unit) :
    ∃ tail, (∀ a ∈ tail, stage a = none) ∧ (provideConnection env m []).2 =
      if env.opens = .ok () then (m []).2 ++ tail else [] := by
  cases hopen : env.opens with
  | error e => exact ⟨[], by simp, by simp [provideConnection, Prog.bind_run, hopen]⟩
  | ok u =>
    cases hm : m [] with
    | mk r es =>
      cases r with
      | error e =>
        cases he : e.isException with
        | true =>
          exact ⟨[.busRollback], by simp [stage], by simp [provideConnection, Prog.bind_run,
            Prog.tryExcept, Prog.catching, hopen, hm, he, emit]⟩
        | false =>
          exact ⟨[], by simp, by simp [provideConnection, Prog.bind_run, Prog.tryExcept,
            Prog.catching, hopen, hm, he]⟩
      | ok u =>
        cases hc : env.commit with
        | ok u =>
          exact ⟨[.busCommit], by simp [stage], by simp [provideConnection, Prog.bind_run,
            Prog.tryExcept, Prog.catching, hopen, hm, hc, emit]⟩
        | error e =>
          cases he : e.isException with
          | true =>
            exact ⟨[.busRollback], by simp [stage], by simp [provideConnection, Prog.bind_run,
              Prog.tryExcept, Prog.catching, hopen, hm, hc, he, emit]⟩
          | false =>
            exact ⟨[], by simp, by simp [provideConnection, Prog.bind_run, Prog.tryExcept,
              Prog.catching, hopen, hm, hc, he]⟩

/-- What goes over a connection, when `m` hands over the messages `handed`. -/
theorem provideConnection_hands {env : ConnectionEnv} {m : Prog (List Effect) PyExc Unit}
    {handed : List Effect} (hm : (m []).2 = handed) (hstage : ∀ a ∈ handed, stage a = some 1) :
    Only 1 (provideConnection env m []).2 ∧
      (Hands 1 (provideConnection env m []).2 ↔ env.opens = .ok () ∧ handed ≠ []) := by
  obtain ⟨tail, htail, heff⟩ := provideConnection_effects env m
  rw [heff, hm]
  by_cases hopen : env.opens = .ok ()
  · rw [if_pos hopen]
    constructor
    · intro a ha j hj
      obtain ha | ha := List.mem_append.mp ha
      · rw [hstage a ha] at hj
        cases hj
        rfl
      · rw [htail a ha] at hj
        cases hj
    · constructor
      · rintro ⟨a, ha, hk⟩
        refine ⟨hopen, ?_⟩
        rintro rfl
        rw [htail a (by simpa using ha)] at hk
        cases hk
      · rintro ⟨-, hne⟩
        obtain ⟨a, ha⟩ := List.exists_mem_of_ne_nil _ hne
        exact ⟨a, by simp [ha], hstage a ha⟩
  · rw [if_neg hopen]
    simp [Only, Hands, hopen]

theorem hasMessages_iff (c : MessagePublisherCollector) :
    c.hasMessages = true ↔ c.stagedMessages ≠ [] ∨ c.stagedDelayedMessages ≠ [] := by
  simp [MessagePublisherCollector.hasMessages]

/-- The collector is filled into a publisher and flushed. -/
theorem fill_flush_run (implicit : Headers) (env : ConnectionEnv) (c : MessagePublisherCollector) :
    ∃ handed, ((do
        let publisher ← Prog.ofExcept (c.fill env.hasBackend)
        flush implicit env publisher : Prog (List Effect) PyExc Unit) []).2 = handed ∧
      (∀ a ∈ handed, stage a = some 1) ∧
      (handed ≠ [] ↔ c.hasMessages = true ∧
        (c.stagedDelayedMessages = [] ∨ env.hasBackend = true) ∧ env.sends 0 = .ok ()) := by
  by_cases hback : c.stagedDelayedMessages = [] ∨ env.hasBackend = true
  · have hfill : c.fill env.hasBackend =
        .ok ⟨c.stagedMessages, c.stagedDelayedMessages.map scheduledData⟩ := by
      obtain hnil | hb := hback
      · simp [MessagePublisherCollector.fill, hnil]
      · simp [MessagePublisherCollector.fill, hb]
    obtain ⟨handed, heff, hstage, hsome⟩ := flush_run implicit env
      ⟨c.stagedMessages, c.stagedDelayedMessages.map scheduledData⟩ [] (by simpa using hback)
    refine ⟨handed, by rw [hfill]; exact heff, hstage, ?_⟩
    rw [hsome, hasMessages_iff]
    simp [hback]
  · have hfill : ∃ e, c.fill env.hasBackend = .error e := by
      obtain ⟨hdelayed, hnone⟩ := not_or.mp hback
      simp [MessagePublisherCollector.fill, hdelayed, hnone]
    obtain ⟨e, hfill⟩ := hfill
    exact ⟨[], by simp [hfill, Prog.bind_run], by simp, by simp [hback]⟩

/-- The publisher hands a message of the collector over. -/
structure BusHands (atEnd : Bool) (env : ConnectionEnv) (staged : List StageCall) : Prop where
  atEnd : atEnd = true
  hasMessages : (MessagePublisherCollector.ofCalls staged).hasMessages = true
  opens : env.opens = .ok ()
  backend : (MessagePublisherCollector.ofCalls staged).stagedDelayedMessages = [] ∨
    env.hasBackend = true
  sends : env.sends 0 = .ok ()

variable (atEnd : Bool) (env : ConnectionEnv) (t : Transaction)

/-- What the publisher context hands over after a body without exception. -/
theorem publisher_exit_none :
    let c := (messageBusPublisherInterceptor atEnd env).intercept t
    Only 1 (c.exit none).2 ∧ (Hands 1 (c.exit none).2 ↔ BusHands atEnd env t.staged) := by
  intro c
  have hexit : (c.exit none).2 = (publisherAfter atEnd env t none []).2 :=
    Context.ofGenerator_exit_effects ..
  rw [hexit]
  cases hend : atEnd with
  | false =>
    obtain ⟨handed, heff, hstage, hsome⟩ := flush_run t.implicit env {} [] (.inl rfl)
    have hnil : handed = [] := by
      by_contra hne
      simpa using hsome.mp hne
    obtain ⟨honly, hhands⟩ := provideConnection_hands heff hstage
    refine ⟨honly, hhands.trans ?_⟩
    constructor
    · rintro ⟨-, hne⟩
      exact absurd hnil hne
    · intro h
      cases h.atEnd
  | true =>
    cases hmsgs : (MessagePublisherCollector.ofCalls t.staged).hasMessages with
    | false =>
      have hrun : publisherAfter true env t none = pure () := by simp [publisherAfter, hmsgs]
      rw [hrun]
      refine ⟨by simp [Only], ?_⟩
      constructor
      · simp [Hands]
      · intro h
        rw [h.hasMessages] at hmsgs
        cases hmsgs
    | true =>
      have hrun : publisherAfter true env t none = provideConnection env (do
          let publisher ← Prog.ofExcept
            ((MessagePublisherCollector.ofCalls t.staged).fill env.hasBackend)
          flush t.implicit env publisher) := by simp [publisherAfter, hmsgs]
      rw [hrun]
      obtain ⟨handed, heff, hstage, hsome⟩ :=
        fill_flush_run t.implicit env (MessagePublisherCollector.ofCalls t.staged)
      obtain ⟨honly, hhands⟩ := provideConnection_hands heff hstage
      refine ⟨honly, hhands.trans ?_⟩
      rw [hsome]
      constructor
      · rintro ⟨hopen, -, hback, hs⟩
        exact ⟨rfl, hmsgs, hopen, hback, hs⟩
      · intro h
        exact ⟨h.opens, hmsgs, h.backend, h.sends⟩

end Bus

def Opens (l : Layer) : Prop := l.session.usesConnection = true → l.session.begins = .ok ()

structure HandsWebsocket (l : Layer) (b : Body) : Prop where
  opens : Opens l
  returned : b.outcome = .ok ()
  staged : b.websocketStaged ≠ []
  sends : l.websocket.sends 0 = .ok ()

/-- The body and the websocket flush end normally. -/
structure Flushed (l : Layer) (b : Body) : Prop where
  opens : Opens l
  returned : b.outcome = .ok ()
  sends : ∀ i < b.websocketStaged.length, l.websocket.sends i = .ok ()

structure Commits (l : Layer) (b : Body) : Prop where
  flushed : Flushed l b
  usesConnection : l.session.usesConnection = true
  active : l.session.txActive = true
  commit : l.session.commit = .ok ()

structure HandsBus (l : Layer) (b : Body) : Prop where
  flushed : Flushed l b
  session : l.session.usesConnection = false ∨ l.session.txActive = false ∨
    l.session.commit = .ok ()
  hands : BusHands l.atEnd l.bus b.staged

theorem effectsOf_append (first second : List (UowEvent Effect)) :
    effectsOf (first ++ second) = effectsOf first ++ effectsOf second := List.filterMap_append ..

theorem effectsOf_effects (es : List Effect) (n : Nat) :
    effectsOf (es.map (.effect n)) = es := by
  simp [effectsOf, List.filterMap_map]

theorem effectsOf_exitEvents (c : Context Effect) (n : Nat) (exc : Option PyExc) :
    effectsOf (exitEvents c n exc) = (c.exit exc).2 := by
  have hcall : effectsOf (.exited n exc :: (c.exit exc).2.map (.effect n)) = (c.exit exc).2 := by
    rw [← List.singleton_append, effectsOf_append, effectsOf_effects]
    rfl
  rw [exitEvents, effectsOf_append, hcall]
  cases (c.exit exc).1 <;> simp [effectsOf]

section Transaction

variable (l : Layer) (b : Body)

def publisherContext : Context Effect :=
  (messageBusPublisherInterceptor l.atEnd l.bus).intercept ⟨l.implicit, b.staged⟩

def sessionContext : Context Effect :=
  (aioSqlAlchemySessionInterceptor l.connection l.session).intercept
    ⟨l.implicit.merge Headers.empty, b.staged⟩

def websocketContext : Context Effect :=
  (webSocketInterceptor l.websocket b.websocketStaged).intercept
    ⟨(l.implicit.merge Headers.empty).merge Headers.empty, b.staged⟩

theorem contexts_eq : contextsOf l.implicit b.staged (interceptors l b) =
    [containerInterceptor, publisherContext l b] ++
      sessionContext l b :: [websocketContext l b] := rfl

theorem sessionContext_enter : (sessionContext l b).enter.2 = [] ∧
    ((sessionContext l b).enter.1 = .ok () ↔ Opens l) := by
  rw [sessionContext, aioSqlAlchemySessionInterceptor, Opens]
  cases hu : l.session.usesConnection with
  | false => simp [Context.ofGenerator, Except.mapError]
  | true => cases l.session.begins <;> simp [Context.ofGenerator, Except.mapError]

/-- The contexts enter exactly if the session opens. -/
theorem allEnter_iff : AllEnter (contextsOf l.implicit b.staged (interceptors l b)) ↔ Opens l := by
  rw [← (sessionContext_enter l b).2, contexts_eq]
  simp only [AllEnter, List.cons_append, List.nil_append, List.mem_cons, List.not_mem_nil,
    or_false, forall_eq_or_imp, forall_eq]
  constructor
  · rintro ⟨-, -, h, -⟩
    exact h
  · intro h
    exact ⟨rfl, rfl, h, rfl⟩

def ownEffects : List Effect := if b.commits then [.commit l.connection] else []

theorem effects_unopened (h : ¬Opens l) : effects l b = [] := by
  obtain ⟨e, he⟩ : ∃ e, (sessionContext l b).enter.1 = .error e := by
    cases hs : (sessionContext l b).enter.1 with
    | error e => exact ⟨e, rfl⟩
    | ok u => exact absurd ((sessionContext_enter l b).2.mp hs) h
  have hbefore : AllEnter [containerInterceptor, publisherContext l b] := by
    intro c hc
    simp only [List.mem_cons, List.not_mem_nil, or_false] at hc
    obtain rfl | rfl := hc <;> rfl
  rw [effects, transaction, contexts_eq, unitOfWork_failed_start hbefore he,
    (sessionContext_enter l b).1]
  rfl

/-- The effects of a transaction whose contexts enter: the body, then the exits of the
websocket, the session and the publisher. -/
theorem effects_opened (h : Opens l) :
    let raised := raisedBy b.outcome
    let afterWebsocket := pendingAfter raised ((websocketContext l b).exit raised).1
    let afterSession := pendingAfter afterWebsocket ((sessionContext l b).exit afterWebsocket).1
    effects l b = ownEffects l b ++ (((websocketContext l b).exit raised).2 ++
      (((sessionContext l b).exit afterWebsocket).2 ++
        ((publisherContext l b).exit afterSession).2)) := by
  intro raised afterWebsocket afterSession
  have hbody : ∃ own, bodyProgram l b (Traced.record
      (enterTrace 0 (contextsOf l.implicit b.staged (interceptors l b))) []) =
        (b.outcome, enterTrace 0 (contextsOf l.implicit b.staged (interceptors l b)) ++ own) ∧
      effectsOf own = ownEffects l b := by
    cases hc : b.commits with
    | false => exact ⟨[], by simp [bodyProgram, hc, Prog.bind_run, Traced.record], by
        simp [ownEffects, hc, effectsOf]⟩
    | true => exact ⟨[.effect 2 (.commit l.connection)], by
        simp [bodyProgram, hc, Prog.bind_run, Traced.record], by simp [ownEffects, hc, effectsOf]⟩
  obtain ⟨own, hrun, hown⟩ := hbody
  have henter : effectsOf (enterTrace 0 (contextsOf l.implicit b.staged (interceptors l b))) =
      [] := by
    rw [contexts_eq]
    simp only [List.cons_append, List.nil_append, enterTrace, (sessionContext_enter l b).1]
    rfl
  have hcontainer : ∀ exc, (containerInterceptor.exit exc).2 = [] := by
    intro exc
    rw [containerInterceptor, Context.ofGenerator_exit_effects]
    cases exc <;> rfl
  rw [effects, transaction, unitOfWork_run _ _ _ ((allEnter_iff l b).mpr h) hrun]
  change effectsOf (_ ++ own ++ exitTrace [(websocketContext l b, 3), (sessionContext l b, 2),
    (publisherContext l b, 1), (containerInterceptor, 0)] raised) = _
  simp only [exitTrace, effectsOf_append, effectsOf_exitEvents, henter, hown, hcontainer]
  simp [effectsOf, raised, afterWebsocket, afterSession]

/-- The exit of the websocket context, however the body ended. -/
theorem websocketContext_exit :
    let exit := (websocketContext l b).exit (raisedBy b.outcome)
    Only 2 exit.2 ∧
      (Hands 2 exit.2 ↔
        b.outcome = .ok () ∧ b.websocketStaged ≠ [] ∧ l.websocket.sends 0 = .ok ()) ∧
      (pendingAfter (raisedBy b.outcome) exit.1 = none ↔
        b.outcome = .ok () ∧ ∀ i < b.websocketStaged.length, l.websocket.sends i = .ok ()) := by
  cases b.outcome with
  | error e =>
    have hws : (websocketContext l b).exit (some e) = (.ok false, []) :=
      websocket_exit_some l.websocket b.websocketStaged _ e
    simp [raisedBy, hws, Only, Hands, pendingAfter]
  | ok u =>
    have hnone := websocket_exit_none l.websocket b.websocketStaged
      ⟨(l.implicit.merge Headers.empty).merge Headers.empty, b.staged⟩
    simpa [raisedBy, websocketContext] using hnone

/-- The publisher hands nothing over while an exception is left to it. -/
theorem publisher_silent {pending : Option PyExc} {r : Except PyExc Bool} {raised : PyExc}
    (h : pendingAfter pending r = some raised) :
    ((publisherContext l b).exit (pendingAfter pending r)).2 = [] := by
  rw [h]
  exact publisher_exit_failed l.atEnd l.bus _ raised

/-- The exits of the session and of the publisher after a failure: nothing is committed and
the publisher still sees an exception. -/
theorem outerContexts_failed (e : PyExc) :
    let session := (sessionContext l b).exit (some e)
    let bus := (publisherContext l b).exit (pendingAfter (some e) session.1)
    Only 0 session.2 ∧ ¬Hands 0 session.2 ∧ bus.2 = [] := by
  intro session bus
  obtain ⟨hstage, raised, hraised⟩ := session_exit_some l.connection l.session
    ⟨l.implicit.merge Headers.empty, b.staged⟩ e
  refine ⟨?_, ?_, publisher_silent l b hraised⟩
  · intro a ha j hj
    rw [hstage a ha] at hj
    cases hj
  · rintro ⟨a, ha, hk⟩
    rw [hstage a ha] at hk
    cases hk

/-- The exits of the session and of the publisher, with `pending` left by the websockets. -/
theorem outerContexts_exit (pending : Option PyExc) :
    let session := (sessionContext l b).exit pending
    let bus := (publisherContext l b).exit (pendingAfter pending session.1)
    (Only 0 session.2 ∧ Only 1 bus.2) ∧
      (Hands 0 session.2 ↔ pending = none ∧ l.session.usesConnection = true ∧
        l.session.txActive = true ∧ l.session.commit = .ok ()) ∧
      (Hands 1 bus.2 ↔ pending = none ∧ (l.session.usesConnection = false ∨
        l.session.txActive = false ∨ l.session.commit = .ok ()) ∧
          BusHands l.atEnd l.bus b.staged) := by
  intro session bus
  cases pending with
  | some e =>
    obtain ⟨honly, hhands, hbus⟩ := outerContexts_failed l b e
    have hbus' : bus.2 = [] := hbus
    rw [hbus']
    exact ⟨⟨honly, by simp [Only]⟩, iff_of_false hhands (by simp), by simp [Hands]⟩
  | none =>
    obtain ⟨honly, hhands, hpass⟩ := session_exit_none l.connection l.session
      ⟨l.implicit.merge Headers.empty, b.staged⟩
    obtain ⟨hbonly, hbhands⟩ := publisher_exit_none l.atEnd l.bus ⟨l.implicit, b.staged⟩
    have hsession :
        Hands 0 session.2 ↔ (none : Option PyExc) = none ∧ l.session.usesConnection = true ∧
        l.session.txActive = true ∧ l.session.commit = .ok () :=
      hhands.trans (by simp)
    cases hleft : pendingAfter none session.1 with
    | none =>
      have hclean := hpass.mp hleft
      have hbus : bus = (publisherContext l b).exit none := by
        change (publisherContext l b).exit (pendingAfter none session.1) = _
        rw [hleft]
      rw [hbus]
      refine ⟨⟨honly, hbonly⟩, hsession, hbhands.trans ?_⟩
      simp [hclean]
    | some raised =>
      have hdirty : ¬(l.session.usesConnection = false ∨ l.session.txActive = false ∨
          l.session.commit = .ok ()) := by
        intro h
        have hnone : pendingAfter none session.1 = none := hpass.mpr h
        rw [hleft] at hnone
        cases hnone
      have hbus : bus.2 = [] := publisher_silent l b hleft
      rw [hbus]
      refine ⟨⟨honly, by simp [Only]⟩, hsession, ?_⟩
      simp [Hands, hdirty]

/-- The effects of every transaction fall into four parts, each of one stage. -/
theorem effects_parts : ∃ own websocket session bus,
    effects l b = own ++ (websocket ++ (session ++ bus)) ∧
      (Only 0 own ∧ Only 2 websocket ∧ Only 0 session ∧ Only 1 bus) ∧
      (Hands 0 own ↔ Opens l ∧ b.commits = true) ∧ (Hands 2 websocket ↔ HandsWebsocket l b) ∧
      (Hands 0 session ↔ Commits l b) ∧ (Hands 1 bus ↔ HandsBus l b) := by
  by_cases hopen : Opens l
  · obtain ⟨hwonly, hwhands, hwpass⟩ := websocketContext_exit l b
    obtain ⟨⟨hsonly, hbonly⟩, hshands, hbhands⟩ := outerContexts_exit l b
      (pendingAfter (raisedBy b.outcome) ((websocketContext l b).exit (raisedBy b.outcome)).1)
    refine ⟨_, _, _, _, effects_opened l b hopen, ⟨?_, hwonly, hsonly, hbonly⟩, ?_, ?_, ?_, ?_⟩
    · cases hc : b.commits <;> simp [ownEffects, hc, Only, stage]
    · cases hc : b.commits <;> simp [ownEffects, hc, Hands, stage, hopen]
    · rw [hwhands]
      exact ⟨fun h => ⟨hopen, h.1, h.2.1, h.2.2⟩, fun h => ⟨h.returned, h.staged, h.sends⟩⟩
    · rw [hshands, hwpass]
      constructor
      · rintro ⟨⟨hret, hsends⟩, huses, hactive, hcommit⟩
        exact ⟨⟨hopen, hret, hsends⟩, huses, hactive, hcommit⟩
      · intro h
        exact ⟨⟨h.flushed.returned, h.flushed.sends⟩, h.usesConnection, h.active, h.commit⟩
    · rw [hbhands, hwpass]
      constructor
      · rintro ⟨⟨hret, hsends⟩, hsession, hbus⟩
        exact ⟨⟨hopen, hret, hsends⟩, hsession, hbus⟩
      · intro h
        exact ⟨⟨h.flushed.returned, h.flushed.sends⟩, h.session, h.hands⟩
  · have hnone : ∀ k, Only k [] ∧ ¬Hands k [] := fun k => ⟨by simp [Only], by simp [Hands]⟩
    refine ⟨[], [], [], [], effects_unopened l b hopen,
      ⟨(hnone 0).1, (hnone 2).1, (hnone 0).1, (hnone 1).1⟩, ?_, ?_, ?_, ?_⟩
    · simp [(hnone 0).2, hopen]
    · exact iff_of_false (hnone 2).2 fun h => hopen h.opens
    · exact iff_of_false (hnone 0).2 fun h => hopen h.flushed.opens
    · exact iff_of_false (hnone 1).2 fun h => hopen h.flushed.opens

end Transaction

section Parts

variable {own websocket session bus : List Effect}

theorem mem_stages {k : Nat} {es : List Effect} : k ∈ es.filterMap stage ↔ Hands k es := by
  simp [Hands, List.mem_filterMap]

theorem hands_append {k : Nat} (first second : List Effect) :
    Hands k (first ++ second) ↔ Hands k first ∨ Hands k second := by
  rw [← mem_stages, List.filterMap_append, List.mem_append, mem_stages, mem_stages]

theorem Only.eq_of_hands {j k : Nat} {es : List Effect} (h : Only k es)
    (hj : Hands j es) : j = k := by
  obtain ⟨a, ha, hstage⟩ := hj
  exact h a ha j hstage

theorem Only.sorted {k : Nat} {es : List Effect} (h : Only k es) :
    (es.filterMap stage).Pairwise (· ≤ ·) := by
  apply List.pairwise_of_forall_mem_list
  intro i hi j hj
  rw [h.eq_of_hands (mem_stages.mp hi), h.eq_of_hands (mem_stages.mp hj)]

/-- Only a websocket message can come too early. -/
theorem parts_sorted_iff (hown : Only 0 own) (hws : Only 2 websocket) (hses : Only 0 session)
    (hbus : Only 1 bus) :
    ((own ++ (websocket ++ (session ++ bus))).filterMap stage).Pairwise (· ≤ ·) ↔
      (Hands 2 websocket → ¬Hands 0 session ∧ ¬Hands 1 bus) := by
  simp only [List.filterMap_append, List.pairwise_append, List.mem_append, mem_stages]
  constructor
  · rintro ⟨-, ⟨-, -, hcross⟩, -⟩ h2
    refine ⟨fun h0 => ?_, fun h1 => ?_⟩
    · exact absurd (hcross 2 h2 0 (.inl h0)) (by omega)
    · exact absurd (hcross 2 h2 1 (.inr h1)) (by omega)
  · intro h
    refine ⟨hown.sorted, ⟨hws.sorted, ⟨hses.sorted, hbus.sorted, ?_⟩, ?_⟩, ?_⟩
    · intro i hi j _
      have hi0 := hses.eq_of_hands hi
      omega
    · intro i hi j hj
      have hi2 := hws.eq_of_hands hi
      subst hi2
      obtain ⟨h0, h1⟩ := h hi
      obtain hj | hj := hj
      · rw [hses.eq_of_hands hj] at hj
        exact absurd hj h0
      · rw [hbus.eq_of_hands hj] at hj
        exact absurd hj h1
    · intro i hi j _
      have hi0 := hown.eq_of_hands hi
      omega

/-- When effects of the four parts keep the documented promise. -/
theorem atomic_parts_iff (outcome : Reply) (hown : Only 0 own) (hws : Only 2 websocket)
    (hses : Only 0 session) (hbus : Only 1 bus) :
    Atomic outcome (own ++ (websocket ++ (session ++ bus))) ↔
      (Hands 2 websocket → outcome = .ok () ∧ Hands 0 own ∧ ¬Hands 0 session ∧ ¬Hands 1 bus) ∧
      (Hands 1 bus → outcome = .ok () ∧ (Hands 0 own ∨ Hands 0 session)) := by
  have hcommit :
      Hands 0 (own ++ (websocket ++ (session ++ bus))) ↔ Hands 0 own ∨ Hands 0 session := by
    have hw : ¬Hands 0 websocket := fun h => absurd (hws.eq_of_hands h) (by omega)
    have hb : ¬Hands 0 bus := fun h => absurd (hbus.eq_of_hands h) (by omega)
    simp [hands_append, hw, hb]
  have hbusHands : Hands 1 (own ++ (websocket ++ (session ++ bus))) ↔ Hands 1 bus := by
    have ho : ¬Hands 1 own := fun h => absurd (hown.eq_of_hands h) (by omega)
    have hw : ¬Hands 1 websocket := fun h => absurd (hws.eq_of_hands h) (by omega)
    have hs : ¬Hands 1 session := fun h => absurd (hses.eq_of_hands h) (by omega)
    simp [hands_append, ho, hw, hs]
  have hwsHands : Hands 2 (own ++ (websocket ++ (session ++ bus))) ↔ Hands 2 websocket := by
    have ho : ¬Hands 2 own := fun h => absurd (hown.eq_of_hands h) (by omega)
    have hs : ¬Hands 2 session := fun h => absurd (hses.eq_of_hands h) (by omega)
    have hb : ¬Hands 2 bus := fun h => absurd (hbus.eq_of_hands h) (by omega)
    simp [hands_append, ho, hs, hb]
  have hsorted := parts_sorted_iff hown hws hses hbus
  constructor
  · rintro ⟨hafter, hordered⟩
    rw [hcommit, hbusHands, hwsHands] at hafter
    rw [hsorted] at hordered
    refine ⟨fun h2 => ?_, fun h1 => hafter (.inl h1)⟩
    obtain ⟨hok, hown0 | hses0⟩ := hafter (.inr h2)
    · exact ⟨hok, hown0, hordered h2⟩
    · exact absurd hses0 (hordered h2).1
  · rintro ⟨hwebsocket, hbus⟩
    refine ⟨?_, hsorted.mpr fun h2 => (hwebsocket h2).2.2⟩
    rw [hcommit, hbusHands, hwsHands]
    rintro (h1 | h2)
    · exact hbus h1
    · exact ⟨(hwebsocket h2).1, .inl (hwebsocket h2).2.1⟩

end Parts

/-- The layer keeps its documented promise exactly where it hands no websocket message
over before a commit or a bus message, and no bus message without a commit. -/
theorem atomic_layer_iff (l : Layer) (b : Body) :
    Atomic b.outcome (effects l b) ↔
      (HandsWebsocket l b → b.commits = true ∧ ¬Commits l b ∧ ¬HandsBus l b) ∧
      (HandsBus l b → b.commits = true ∨ Commits l b) := by
  obtain ⟨own, websocket, session, bus, heq, ⟨hown, hws, hses, hbus⟩, hown0, hws2, hses0, hbus1⟩ :=
    effects_parts l b
  rw [heq, atomic_parts_iff _ hown hws hses hbus, hown0, hws2, hses0, hbus1]
  constructor
  · rintro ⟨hwebsocket, hbus⟩
    constructor
    · intro h
      obtain ⟨-, ⟨-, hcommits⟩, hrest⟩ := hwebsocket h
      exact ⟨hcommits, hrest⟩
    · intro h
      obtain ⟨-, ⟨-, hcommits⟩ | hcommits⟩ := hbus h
      · exact .inl hcommits
      · exact .inr hcommits
  · rintro ⟨hwebsocket, hbus⟩
    constructor
    · intro h
      obtain ⟨hcommits, hrest⟩ := hwebsocket h
      exact ⟨h.returned, ⟨h.opens, hcommits⟩, hrest⟩
    · intro h
      refine ⟨h.flushed.returned, ?_⟩
      obtain hcommits | hcommits := hbus h
      · exact .inl ⟨h.flushed.opens, hcommits⟩
      · exact .inr hcommits

/-- One websocket message and one bus message are staged, and the database refuses to
commit. -/
def refusedCommit : Layer where
  session := { commit := .error (.error "IntegrityError" "duplicate key") }

def notifyingBody : Body where
  staged := [.publish ⟨"user_created", [], false⟩]
  websocketStaged := [⟨["users"], []⟩]

/-- The clients hear of a change the database refused; where it commits, they hear of it
before. -/
theorem websocket_before_commit :
    effects refusedCommit notifyingBody = [.sent ["users"] []] ∧
      ¬Atomic notifyingBody.outcome (effects refusedCommit notifyingBody) ∧
      (effects {} notifyingBody).filterMap stage = [2, 0, 1] ∧
      ¬Atomic notifyingBody.outcome (effects {} notifyingBody) := by
  have hrefused : effects refusedCommit notifyingBody = [.sent ["users"] []] := rfl
  have hcommitted : (effects {} notifyingBody).filterMap stage = [2, 0, 1] := rfl
  refine ⟨hrefused, ?_, hcommitted, ?_⟩
  · intro h
    rw [hrefused] at h
    obtain ⟨-, a, ha, hstage⟩ := h.afterCommit (.inr ⟨_, List.mem_singleton_self _, rfl⟩)
    rw [List.mem_singleton.mp ha] at hstage
    cases hstage
  · intro h
    have hordered := h.ordered
    rw [hcommitted] at hordered
    simp at hordered

end AtomicLayer

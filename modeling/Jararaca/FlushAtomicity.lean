import Jararaca.AtomicLayer

/-!
# One flush over two stores

A flush publishes the immediate messages inside an AMQP transaction and enqueues the
delayed ones in the broker backend, which has no part in that transaction: what was
enqueued before a failure stays there, and the commit comes last. What becomes of the
messages is read off the effects of the connection.
-/
namespace FlushAtomicity

open Programs Messages Interceptors AtomicLayer

/-- What the exchange and the backend have got: the messages of committed transactions, the
ones of the open transaction, and the enqueued ones. -/
structure Stores where
  exchange : List Outgoing := []
  uncommitted : List Outgoing := []
  backend : List DelayedMessageData := []

/-- One effect on the stores. A transaction that is not committed is dropped with its channel. -/
def Stores.add (s : Stores) : Effect → Stores
  | .published m => { s with uncommitted := s.uncommitted ++ [m] }
  | .busCommit => { s with exchange := s.exchange ++ s.uncommitted, uncommitted := [] }
  | .busRollback => { s with uncommitted := [] }
  | .scheduled m => { s with backend := s.backend ++ [m] }
  | .commit _ | .rollback _ | .sent _ _ | .other _ => s

def Stores.addAll (s : Stores) (es : List Effect) : Stores := es.foldl Stores.add s

section Flush

variable (implicit : Headers) (env : ConnectionEnv) (p : AIOPikaMessagePublisher)

/-- `provide_connection` around the flush of `p`: how it ends, and its effects. -/
def connectAndFlush : Except PyExc Unit × List Effect :=
  provideConnection env (flush implicit env p) []

/-- The immediate messages as they are published. -/
def outgoings : List Outgoing :=
  (p.stagedMessages.zipIdx).map fun m => outgoing implicit (env.span m.2) m.1

/-- The delayed messages as they are enqueued. -/
def enqueues : List DelayedMessageData :=
  (p.stagedDelayedMessages.zipIdx p.stagedMessages.length).map fun d =>
    withPublishHeaders implicit (env.span d.2) d.1

/-- A connection that ends with an error leaves no message behind, one that ends normally
leaves all of them. -/
def AllOrNothing : Prop :=
  let ended := connectAndFlush implicit env p
  let stores := Stores.addAll {} ended.2
  match ended.1 with
  | .error _ => stores.exchange = [] ∧ stores.backend = []
  | .ok _ => stores.exchange = outgoings implicit env p ∧ stores.backend = enqueues implicit env p

/-- Something fails after the first delayed message was enqueued. -/
structure FailsLate : Prop where
  opens : env.opens = .ok ()
  published : ∀ i < p.stagedMessages.length, env.sends i = .ok ()
  backend : env.hasBackend = true
  delayed : p.stagedDelayedMessages ≠ []
  first : env.sends p.stagedMessages.length = .ok ()
  fails : (∃ i < p.stagedDelayedMessages.length, env.sends (p.stagedMessages.length + i) ≠ .ok ()) ∨
    env.commit ≠ .ok ()

end Flush

section Hand

variable {α : Type} (sends : Nat → Reply) (effect : Nat → α → Effect)

/-- A loop whose sends all succeed hands everything over. -/
theorem handAll_ok (n : Nat) (ms : List α) (es : List Effect)
    (h : ∀ i < ms.length, sends (n + i) = .ok ()) :
    handAll sends effect n ms es = (.ok (), es ++ (ms.zipIdx n).map fun m => effect m.2 m.1) := by
  induction ms generalizing n es with
  | nil => simp [handAll]
  | cons m ms ih =>
    have hfirst : sends n = .ok () := by simpa using h 0 (by simp)
    have hrest : ∀ i < ms.length, sends (n + 1 + i) = .ok () := by
      intro i hi
      have hi' := h (i + 1) (by simpa using hi)
      rwa [← Nat.add_assoc, Nat.add_right_comm] at hi'
    have hrun : handAll sends effect n (m :: ms) es =
        handAll sends effect (n + 1) ms (es ++ [effect n m]) := by
      simp [handAll, Prog.bind_run, hfirst, emit]
    rw [hrun, ih _ _ hrest]
    simp [List.zipIdx_cons]

/-- A loop with a send that fails hands over what stands before the first such send. -/
theorem handAll_fails (n : Nat) (ms : List α) (es : List Effect)
    (h : ∃ i < ms.length, sends (n + i) ≠ .ok ()) :
    ∃ j e, j < ms.length ∧ (j = 0 ↔ sends n ≠ .ok ()) ∧ handAll sends effect n ms es =
      (.error e, es ++ ((ms.zipIdx n).map fun m => effect m.2 m.1).take j) := by
  induction ms generalizing n es with
  | nil =>
    obtain ⟨i, hi, -⟩ := h
    simp at hi
  | cons m ms ih =>
    cases hs : sends n with
    | error e =>
      exact ⟨0, e, by simp, by simp, by simp [handAll, Prog.bind_run, hs]⟩
    | ok u =>
      have hrun : handAll sends effect n (m :: ms) es =
          handAll sends effect (n + 1) ms (es ++ [effect n m]) := by
        simp [handAll, Prog.bind_run, hs, emit]
      have hrest : ∃ i < ms.length, sends (n + 1 + i) ≠ .ok () := by
        obtain ⟨i, hi, hfail⟩ := h
        cases i with
        | zero => exact absurd hs (by simpa using hfail)
        | succ i =>
          refine ⟨i, by simpa using hi, ?_⟩
          rwa [Nat.add_right_comm, Nat.add_assoc]
      obtain ⟨j, e, hj, -, hfails⟩ := ih (n + 1) (es ++ [effect n m]) hrest
      refine ⟨j + 1, e, by simpa using hj, by simp, ?_⟩
      rw [hrun, hfails]
      simp [List.zipIdx_cons]

end Hand

theorem addAll_append (s : Stores) (first second : List Effect) :
    s.addAll (first ++ second) = (s.addAll first).addAll second := List.foldl_append

theorem addAll_published (s : Stores) (ms : List Outgoing) :
    s.addAll (ms.map .published) = { s with uncommitted := s.uncommitted ++ ms } := by
  induction ms generalizing s with
  | nil => simp [Stores.addAll]
  | cons m ms ih =>
    change (s.add (.published m)).addAll (ms.map .published) = _
    rw [ih]
    simp [Stores.add]

theorem addAll_scheduled (s : Stores) (ds : List DelayedMessageData) :
    s.addAll (ds.map .scheduled) = { s with backend := s.backend ++ ds } := by
  induction ds generalizing s with
  | nil => simp [Stores.addAll]
  | cons d ds ih =>
    change (s.add (.scheduled d)).addAll (ds.map .scheduled) = _
    rw [ih]
    simp [Stores.add]

section Connection

variable {env : ConnectionEnv} {m : Prog (List Effect) PyExc Unit} {es : List Effect}

/-- The broker's own transaction is rolled back, or just dropped. -/
def Aborted (tail : List Effect) : Prop := tail = [] ∨ tail = [.busRollback]

theorem connection_closed {e : PyExc} (hopen : env.opens = .error e) :
    provideConnection env m [] = (.error e, []) := by
  simp [provideConnection, Prog.bind_run, hopen]

theorem connection_aborts {e : PyExc} (hopen : env.opens = .ok ()) (hm : m [] = (.error e, es)) :
    ∃ e' tail, Aborted tail ∧ provideConnection env m [] = (.error e', es ++ tail) := by
  cases he : e.isException with
  | true =>
    exact ⟨env.surfaces e, [.busRollback], .inr rfl, by
      simp [provideConnection, Prog.bind_run, Prog.tryExcept, Prog.catching, hopen, hm, he, emit]⟩
  | false =>
    exact ⟨env.surfaces e, [], .inl rfl, by
      simp [provideConnection, Prog.bind_run, Prog.tryExcept, Prog.catching, hopen, hm, he]⟩

theorem connection_commits (hopen : env.opens = .ok ()) (hm : m [] = (.ok (), es))
    (hcommit : env.commit = .ok ()) :
    provideConnection env m [] = (.ok (), es ++ [.busCommit]) := by
  simp [provideConnection, Prog.bind_run, Prog.tryExcept, Prog.catching, hopen, hm, hcommit, emit]

theorem connection_commit_fails {e : PyExc} (hopen : env.opens = .ok ()) (hm : m [] = (.ok (), es))
    (hcommit : env.commit = .error e) :
    ∃ e' tail, Aborted tail ∧ provideConnection env m [] = (.error e', es ++ tail) := by
  cases he : e.isException with
  | true =>
    exact ⟨env.surfaces e, [.busRollback], .inr rfl, by
      simp [provideConnection, Prog.bind_run, Prog.tryExcept, Prog.catching, hopen, hm, hcommit, he,
        emit]⟩
  | false =>
    exact ⟨env.surfaces e, [], .inl rfl, by
      simp [provideConnection, Prog.bind_run, Prog.tryExcept, Prog.catching, hopen, hm,
        hcommit, he]⟩

theorem committed_stores (ms : List Outgoing) (ds : List DelayedMessageData) :
    (Stores.addAll {} (ms.map .published ++ ds.map .scheduled ++ [.busCommit])).exchange = ms ∧
      (Stores.addAll {} (ms.map .published ++ ds.map .scheduled ++ [.busCommit])).backend = ds := by
  rw [addAll_append, addAll_append, addAll_published, addAll_scheduled]
  simp [Stores.addAll, Stores.add]

/-- An aborted connection leaves what the backend got, and nothing on the exchange. -/
theorem aborted_stores {tail : List Effect} (h : Aborted tail) (ms : List Outgoing)
    (ds : List DelayedMessageData) :
    (Stores.addAll {} (ms.map .published ++ ds.map .scheduled ++ tail)).exchange = [] ∧
      (Stores.addAll {} (ms.map .published ++ ds.map .scheduled ++ tail)).backend = ds := by
  rw [addAll_append, addAll_append, addAll_published, addAll_scheduled]
  obtain rfl | rfl := h
  · simp [Stores.addAll]
  · simp [Stores.addAll, Stores.add]

end Connection

section Flush

variable (implicit : Headers) (env : ConnectionEnv) (p : AIOPikaMessagePublisher)

theorem publishAll_ok (h : ∀ i < p.stagedMessages.length, env.sends i = .ok ()) :
    publishAll implicit env 0 p.stagedMessages [] =
      (.ok (), (outgoings implicit env p).map .published) := by
  rw [publishAll_eq, handAll_ok]
  · simp [outgoings]
  · simpa using h

/-- A publish that fails ends the flush before anything is enqueued. -/
theorem flush_publish_fails (h : ∃ i < p.stagedMessages.length, env.sends i ≠ .ok ()) :
    ∃ (e : PyExc) (ms : List Outgoing),
      flush implicit env p [] = (.error e, ms.map .published) := by
  obtain ⟨j, e, -, -, hfails⟩ := handAll_fails env.sends
    (fun n m => .published (outgoing implicit (env.span n) m)) 0 p.stagedMessages []
    (by simpa using h)
  rw [← publishAll_eq] at hfails
  refine ⟨e, (outgoings implicit env p).take j, ?_⟩
  rw [flush, Prog.bind_error hfails]
  simp [outgoings, Function.comp_def]

/-- Without a backend the flush raises at the first delayed message, when the others are out. -/
theorem flush_without_backend (h : ∀ i < p.stagedMessages.length, env.sends i = .ok ())
    (hdelayed : p.stagedDelayedMessages ≠ []) (hback : env.hasBackend = false) :
    ∃ e, flush implicit env p [] = (.error e, (outgoings implicit env p).map .published) := by
  have hraises : (!p.stagedDelayedMessages.isEmpty && !env.hasBackend) = true := by
    simp [hdelayed, hback]
  rw [flush, Prog.bind_ok (publishAll_ok implicit env p h), hraises, Prog.when_true]
  exact ⟨_, Prog.bind_error (Prog.raise_run _ _) _⟩

/-- With the immediate messages published, the flush is the loop over the delayed ones. -/
theorem flush_delayed (h : ∀ i < p.stagedMessages.length, env.sends i = .ok ())
    (hback : p.stagedDelayedMessages = [] ∨ env.hasBackend = true) :
    flush implicit env p [] = handAll env.sends
      (fun n d => .scheduled (withPublishHeaders implicit (env.span n) d)) p.stagedMessages.length
      p.stagedDelayedMessages ((outgoings implicit env p).map .published) := by
  have hpasses : (!p.stagedDelayedMessages.isEmpty && !env.hasBackend) = false := by
    obtain hnil | hb := hback
    · simp [hnil]
    · simp [hb]
  rw [flush, Prog.bind_ok (publishAll_ok implicit env p h), hpasses, Prog.when_false,
    ← scheduleAll_eq]
  rfl

theorem flush_ok (h : ∀ i < p.stagedMessages.length, env.sends i = .ok ())
    (hback : p.stagedDelayedMessages = [] ∨ env.hasBackend = true)
    (hdelayed : ∀ i < p.stagedDelayedMessages.length,
      env.sends (p.stagedMessages.length + i) = .ok ()) :
    flush implicit env p [] = (.ok (), (outgoings implicit env p).map .published ++
      (enqueues implicit env p).map .scheduled) := by
  rw [flush_delayed implicit env p h hback, handAll_ok env.sends _ _ _ _ hdelayed]
  simp [enqueues]

/-- A delayed message that is refused leaves those before it in the backend. -/
theorem flush_enqueue_fails (h : ∀ i < p.stagedMessages.length, env.sends i = .ok ())
    (hback : env.hasBackend = true)
    (hdelayed : ∃ i < p.stagedDelayedMessages.length,
      env.sends (p.stagedMessages.length + i) ≠ .ok ()) :
    ∃ (e : PyExc) (ds : List DelayedMessageData),
      (ds = [] ↔ env.sends p.stagedMessages.length ≠ .ok ()) ∧
      flush implicit env p [] = (.error e, (outgoings implicit env p).map .published ++
        ds.map .scheduled) := by
  obtain ⟨j, e, hj, hzero, hfails⟩ := handAll_fails env.sends
    (fun n d => .scheduled (withPublishHeaders implicit (env.span n) d)) p.stagedMessages.length
    p.stagedDelayedMessages ((outgoings implicit env p).map .published) hdelayed
  have hlength : (enqueues implicit env p).length = p.stagedDelayedMessages.length := by
    simp [enqueues]
  refine ⟨e, (enqueues implicit env p).take j, ?_, ?_⟩
  · rw [← hzero, List.take_eq_nil_iff]
    constructor
    · rintro (hj0 | hnil)
      · exact hj0
      · rw [hnil, List.length_nil] at hlength
        omega
    · exact .inl
  · rw [flush_delayed implicit env p h (.inr hback), hfails]
    simp [enqueues, Function.comp_def]

variable {implicit} {env} {p}

/-- A flush that fails is undone exactly where it enqueued nothing. -/
theorem nothing_iff {ms : List Outgoing} {ds : List DelayedMessageData} {e : PyExc}
    {tail : List Effect} (htail : Aborted tail)
    (h : connectAndFlush implicit env p =
      (.error e, ms.map .published ++ ds.map .scheduled ++ tail)) :
    AllOrNothing implicit env p ↔ ds = [] := by
  obtain ⟨hexchange, hbackend⟩ := aborted_stores htail ms ds
  unfold AllOrNothing
  rw [h]
  dsimp only
  rw [hexchange, hbackend]
  simp

theorem failed_flush_iff {ms : List Outgoing} {ds : List DelayedMessageData} {e : PyExc}
    (hopen : env.opens = .ok ())
    (h : flush implicit env p [] = (.error e, ms.map .published ++ ds.map .scheduled)) :
    AllOrNothing implicit env p ↔ ds = [] := by
  obtain ⟨e', tail, htail, hrun⟩ := connection_aborts hopen h
  exact nothing_iff htail hrun

/-- A flush that fails before the first enqueue leaves nothing. -/
theorem failed_early {ms : List Outgoing} {e : PyExc} (hopen : env.opens = .ok ())
    (h : flush implicit env p [] = (.error e, ms.map .published)) :
    AllOrNothing implicit env p := by
  have hflush : flush implicit env p [] =
      (.error e, ms.map .published ++ ([] : List DelayedMessageData).map .scheduled) := by
    simpa using h
  exact (failed_flush_iff hopen hflush).mpr rfl

variable (implicit) (env) (p)

/-- A connection that cannot be opened sends nothing, and nothing can fail late in it. -/
theorem closed_iff {e : PyExc} (hopen : env.opens = .error e) :
    AllOrNothing implicit env p ↔ ¬FailsLate env p := by
  have hclosed : connectAndFlush implicit env p = (.error e, []) := connection_closed hopen
  have hall : AllOrNothing implicit env p := by simp [AllOrNothing, hclosed, Stores.addAll]
  have hnot : ¬FailsLate env p := by
    intro hlate
    rw [hlate.opens] at hopen
    cases hopen
  exact iff_of_true hall hnot

/-- A flush without failure is all or nothing as its commit is, if it enqueued something. -/
theorem flushed_iff (hopen : env.opens = .ok ())
    (hpub : ∀ i < p.stagedMessages.length, env.sends i = .ok ())
    (hback : p.stagedDelayedMessages = [] ∨ env.hasBackend = true)
    (hdelayed : ∀ i < p.stagedDelayedMessages.length,
      env.sends (p.stagedMessages.length + i) = .ok ()) :
    AllOrNothing implicit env p ↔ ¬FailsLate env p := by
  have hflush := flush_ok implicit env p hpub hback hdelayed
  cases hcommit : env.commit with
  | ok u =>
    have hrun : connectAndFlush implicit env p = _ := connection_commits hopen hflush hcommit
    have hall : AllOrNothing implicit env p := by
      unfold AllOrNothing
      rw [hrun]
      exact committed_stores _ _
    have hnot : ¬FailsLate env p := by
      intro hlate
      obtain ⟨i, hi, hfail⟩ | hfail := hlate.fails
      · exact hfail (hdelayed i hi)
      · exact hfail hcommit
    exact iff_of_true hall hnot
  | error e =>
    obtain ⟨e', tail, htail, hrun⟩ := connection_commit_fails hopen hflush hcommit
    have hnil : enqueues implicit env p = [] ↔ p.stagedDelayedMessages = [] := by
      simp [enqueues]
    rw [nothing_iff htail hrun, hnil]
    constructor
    · intro hempty hlate
      exact hlate.delayed hempty
    · intro hlate
      by_contra hne
      have hfirst := hdelayed 0 (List.length_pos_of_ne_nil hne)
      exact hlate ⟨hopen, hpub, hback.resolve_left hne, hne, hfirst, .inr (by simp [hcommit])⟩

/-- A flush that a refused enqueue ends leaves something exactly behind the first one. -/
theorem refused_iff (hopen : env.opens = .ok ())
    (hpub : ∀ i < p.stagedMessages.length, env.sends i = .ok ())
    (hback : p.stagedDelayedMessages = [] ∨ env.hasBackend = true)
    (hfails : ∃ i < p.stagedDelayedMessages.length,
      env.sends (p.stagedMessages.length + i) ≠ .ok ()) :
    AllOrNothing implicit env p ↔ ¬FailsLate env p := by
  have hne : p.stagedDelayedMessages ≠ [] := by
    intro hnil
    obtain ⟨i, hi, -⟩ := hfails
    simp [hnil] at hi
  have hb : env.hasBackend = true := hback.resolve_left hne
  obtain ⟨e, ds, hds, hflush⟩ := flush_enqueue_fails implicit env p hpub hb hfails
  rw [failed_flush_iff hopen hflush, hds]
  constructor
  · intro hfirst hlate
    exact hfirst hlate.first
  · intro hlate hfirst
    exact hlate ⟨hopen, hpub, hb, hne, hfirst, .inl hfails⟩

/-- A connection leaves all of its messages or none, exactly when nothing fails after the first
delayed message was enqueued. -/
theorem all_or_nothing_iff : AllOrNothing implicit env p ↔ ¬FailsLate env p := by
  cases hopen : env.opens with
  | error e => exact closed_iff implicit env p hopen
  | ok u =>
    by_cases hpub : ∀ i < p.stagedMessages.length, env.sends i = .ok ()
    · by_cases hback : p.stagedDelayedMessages = [] ∨ env.hasBackend = true
      · by_cases hdelayed : ∀ i < p.stagedDelayedMessages.length,
          env.sends (p.stagedMessages.length + i) = .ok ()
        · exact flushed_iff implicit env p hopen hpub hback hdelayed
        · exact refused_iff implicit env p hopen hpub hback (by simpa using hdelayed)
      · obtain ⟨hne, hb⟩ := not_or.mp hback
        obtain ⟨e, hflush⟩ := flush_without_backend implicit env p hpub hne (by simpa using hb)
        exact iff_of_true (failed_early hopen hflush) fun hlate => hb hlate.backend
    · obtain ⟨e, ms, hflush⟩ := flush_publish_fails implicit env p (by simpa using hpub)
      exact iff_of_true (failed_early hopen hflush) fun hlate => hpub hlate.published

end Flush

/-- A reminder behind a broker that refuses to commit. -/
def reminder : AIOPikaMessagePublisher where
  stagedDelayedMessages := [{ messageTopic := "user.reminder", dispatchTime := 60, payload := [] }]

def refusingBroker : ConnectionEnv where
  commit := .error (.error "ChannelClosed" "")

/-- A commit that is refused after the reminder was sent. -/
theorem refused_commit_keeps_reminder : ¬AllOrNothing Headers.empty refusingBroker reminder := by
  intro h
  have hbackend := h.2
  cases hbackend

end FlushAtomicity

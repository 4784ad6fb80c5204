import Jararaca.Interceptors

/-!
# Nested `async with` statements

What the unit of work stands for: one `async with` statement for each context, the
first one outermost. The exit loop of the provider visits the contexts as the nested
statements do and shows each the same exception. How the block ends is another
matter: a suppressed exception of the body leaves the provider all the same, and a
context that does not enter leaves the ones before it open.
-/
namespace NestedContexts

open Programs Messages UnitOfWork

variable {σ ε : Type} [Traced σ ε]

/-- `async with c: body`, for the context at position `n`. -/
def asyncWith (c : Context ε) (n : Nat) (body : Prog σ PyExc Unit) : Prog σ PyExc Unit := do
  Prog.modify (Traced.record (c.enter.2.map (.effect n)))
  Prog.ofExcept c.enter.1
  Prog.modify (Traced.record [.entered n])
  let outcome ← Prog.attempt body
  Prog.modify (Traced.record (exitEvents c n (raisedBy outcome)))
  match outcome, (c.exit (raisedBy outcome)).1 with
  | _, .error raised => Prog.raise raised
  | .ok _, .ok _ => pure ()
  | .error e, .ok suppressed => if suppressed then pure () else Prog.raise e

/-- One `async with` inside the other, the head of the list outermost. -/
def nested (n : Nat) : List (Context ε) → Prog σ PyExc Unit → Prog σ PyExc Unit
  | [], body => body
  | c :: cs, body => asyncWith c n (nested (n + 1) cs body)

def replyOf : Option PyExc → Reply
  | none => .ok ()
  | some e => .error e

@[simp] theorem raisedBy_replyOf (pending : Option PyExc) :
    raisedBy (replyOf pending) = pending := by
  cases pending <;> rfl

@[simp] theorem replyOf_raisedBy (r : Reply) : replyOf (raisedBy r) = r := by
  cases r <;> rfl

/-- What is left of a pending exception outside the contexts `inner`. -/
def arriving (inner : List (Context ε)) (pending : Option PyExc) : Option PyExc :=
  inner.foldr (fun c exc => pendingAfter exc (c.exit exc).1) pending

@[simp] theorem arriving_nil (pending : Option PyExc) :
    arriving ([] : List (Context ε)) pending = pending := rfl

@[simp] theorem arriving_cons (c : Context ε) (cs : List (Context ε)) (pending : Option PyExc) :
    arriving (c :: cs) pending =
      pendingAfter (arriving cs pending) (c.exit (arriving cs pending)).1 := rfl

theorem exitPending_append (first second : List (Context ε × Nat)) (exc : Option PyExc) :
    exitPending (first ++ second) exc = exitPending second (exitPending first exc) := by
  induction first generalizing exc with
  | nil => rfl
  | cons q first ih =>
    obtain ⟨c, n⟩ := q
    exact ih _

theorem exitTrace_append (first second : List (Context ε × Nat)) (exc : Option PyExc) :
    exitTrace (first ++ second) exc =
      exitTrace first exc ++ exitTrace second (exitPending first exc) := by
  induction first generalizing exc with
  | nil => rfl
  | cons q first ih =>
    obtain ⟨c, n⟩ := q
    simp only [List.cons_append, exitTrace, exitPending, ih, List.append_assoc]

theorem exitPending_zipIdx (cs : List (Context ε)) (n : Nat) (exc : Option PyExc) :
    exitPending (cs.zipIdx n).reverse exc = arriving cs exc := by
  induction cs generalizing n with
  | nil => rfl
  | cons c cs ih =>
    rw [List.zipIdx_cons, List.reverse_cons, exitPending_append, ih, exitPending, exitPending,
      arriving_cons]

/-- The pending exception of the exit loop is what is left outside all contexts. -/
theorem exitPending_exitOrder (ctxs : List (Context ε)) (exc : Option PyExc) :
    exitPending (exitOrder ctxs) exc = arriving ctxs exc := exitPending_zipIdx ctxs 0 exc

/-- One `async with` whose context enters. -/
theorem asyncWith_run {c : Context ε} (hc : c.enter.1 = .ok ()) (n : Nat) {body : Prog σ PyExc Unit}
    {s t : σ} {r : Reply}
    (hb : body (Traced.record (c.enter.2.map (.effect n) ++ [.entered n]) s) = (r, t)) :
    asyncWith c n body s =
      (replyOf (pendingAfter (raisedBy r) (c.exit (raisedBy r)).1),
        Traced.record (exitEvents c n (raisedBy r)) t) := by
  simp only [asyncWith, Prog.bind_run, Prog.modify_run, Prog.ofExcept_run, hc,
    Traced.record_record, Prog.attempt_run, hb]
  cases r with
  | ok u =>
    simp only [raisedBy]
    cases (c.exit none).1 <;> simp [pendingAfter, replyOf]
  | error e =>
    simp only [raisedBy]
    cases (c.exit (some e)).1 with
    | error raised => simp [pendingAfter, replyOf]
    | ok suppressed => cases suppressed <;> simp [pendingAfter, replyOf]

/-- Nested statements whose contexts all enter. -/
theorem nested_run (ctxs : List (Context ε)) (n : Nat) (body : Prog σ PyExc Unit) (s : σ)
    (h : AllEnter ctxs) {r : Reply} {t : σ}
    (hb : body (Traced.record (enterTrace n ctxs) s) = (r, t)) :
    nested n ctxs body s =
      (replyOf (arriving ctxs (raisedBy r)),
        Traced.record (exitTrace (ctxs.zipIdx n).reverse (raisedBy r)) t) := by
  induction ctxs generalizing n s with
  | nil =>
    have hbody : body s = (r, t) := by simpa [enterTrace, Traced.record_nil] using hb
    simp [nested, hbody, exitTrace, Traced.record_nil]
  | cons c cs ih =>
    have hcs : AllEnter cs := fun d hd => h d (by simp [hd])
    have hinner := ih (n + 1) (Traced.record (c.enter.2.map (.effect n) ++ [.entered n]) s) hcs
      (by rw [Traced.record_record]; exact hb)
    rw [nested, asyncWith_run (h c (by simp)) n hinner, raisedBy_replyOf, Traced.record_record,
      arriving_cons, List.zipIdx_cons, List.reverse_cons, exitTrace_append, exitPending_zipIdx]
    simp [exitTrace]

/-- A context that does not enter raises inside the statements around it. -/
theorem nested_append (before rest : List (Context ε)) (n : Nat) (body : Prog σ PyExc Unit) :
    nested n (before ++ rest) body = nested n before (nested (n + before.length) rest body) := by
  induction before generalizing n with
  | nil => rfl
  | cons c cs ih =>
    have hn : n + 1 + cs.length = n + (c :: cs).length := by simp; omega
    rw [List.cons_append, nested, nested, ih, hn]

theorem asyncWith_unentered {c : Context ε} {e : PyExc} (hc : c.enter.1 = .error e) (n : Nat)
    (body : Prog σ PyExc Unit) (s : σ) :
    asyncWith c n body s = (.error e, Traced.record (c.enter.2.map (.effect n)) s) := by
  simp [asyncWith, Prog.bind_run, hc]

/-- The exit calls of a trace, each with its context and the exception it is given. -/
def exitCalls (events : List (UowEvent ε)) : List (Nat × Option PyExc) :=
  events.filterMap fun
    | .exited p exc => some (p, exc)
    | _ => none

theorem exitCalls_append (first second : List (UowEvent ε)) :
    exitCalls (first ++ second) = exitCalls first ++ exitCalls second := List.filterMap_append ..

theorem exitCalls_effects (effects : List ε) (n : Nat) :
    exitCalls (effects.map (.effect n)) = [] := by
  simp [exitCalls, List.filterMap_map]

theorem exitCalls_exitEvents (c : Context ε) (n : Nat) (exc : Option PyExc) :
    exitCalls (exitEvents c n exc) = [(n, exc)] := by
  have hcall : exitCalls (.exited n exc :: (c.exit exc).2.map (.effect n)) = [(n, exc)] := by
    rw [← List.singleton_append, exitCalls_append, exitCalls_effects]
    rfl
  rw [exitEvents, exitCalls_append, hcall]
  cases (c.exit exc).1 <;> rfl

theorem exitCalls_enterTrace (ctxs : List (Context ε)) (n : Nat) :
    exitCalls (enterTrace n ctxs) = [] := by
  induction ctxs generalizing n with
  | nil => rfl
  | cons c cs ih =>
    rw [enterTrace, exitCalls_append, exitCalls_append, ih, exitCalls_effects]
    rfl

/-- The exit loop calls each context once, in the order it visits them. -/
theorem exitCalls_exitTrace (cs : List (Context ε × Nat)) (exc : Option PyExc) :
    (exitCalls (exitTrace cs exc)).map Prod.fst = cs.map Prod.snd := by
  induction cs generalizing exc with
  | nil => rfl
  | cons q cs ih =>
    obtain ⟨c, n⟩ := q
    rw [exitTrace, exitCalls_append, exitCalls_exitEvents, List.map_append, ih]
    rfl

theorem exitOrder_positions (ctxs : List (Context ε)) :
    (exitOrder ctxs).map Prod.snd = (List.range ctxs.length).reverse := by
  rw [exitOrder, List.map_reverse, List.zipIdx_map_snd, List.range_eq_range']

/-- The exit loop leaves the trace the nested statements leave: the same exit calls with
the same exceptions, each context once and the last entered first. -/
theorem exits_as_nested (ctxs : List (Context ε)) (body : Prog σ PyExc Unit) (s : σ)
    (h : AllEnter ctxs) :
    let ended := body (Traced.record (enterTrace 0 ctxs) s)
    let exits := exitTrace (exitOrder ctxs) (raisedBy ended.1)
    (unitOfWork ctxs body s).2 = Traced.record exits ended.2 ∧
      (nested 0 ctxs body s).2 = Traced.record exits ended.2 ∧
      (exitCalls exits).map Prod.fst = (List.range ctxs.length).reverse := by
  intro ended exits
  refine ⟨?_, ?_, ?_⟩
  · rw [unitOfWork_run ctxs body s h rfl]
  · rw [nested_run ctxs 0 body s h rfl]
    rfl
  · rw [exitCalls_exitTrace, exitOrder_positions]

/-- A generator that catches everything at its yield and ends. -/
def suppressing : Context Interceptors.Effect :=
  Context.ofGenerator (pure ()) (fun _ => pure ())

/-- A list of events is a state of its own. -/
instance : Traced (List (UowEvent ε)) ε where
  record events s := s ++ events
  record_nil s := by simp
  record_record first second s := by simp

/-- A suppressing interceptor in a provider: the container is outside it. -/
def suppressingList : List (Context Interceptors.Effect) :=
  [Interceptors.containerInterceptor, suppressing]

def failingBody : Prog (List (UowEvent Interceptors.Effect)) PyExc Unit :=
  Prog.raise (.error "ValueError" "bad")

theorem suppressingList_enters : AllEnter suppressingList := by
  intro c hc
  simp only [suppressingList, List.mem_cons, List.not_mem_nil, or_false] at hc
  obtain rfl | rfl := hc <;> rfl

/-- The body fails inside a suppressing context: the container around it is exited
without an exception, by the loop and by the nested statements. -/
theorem suppressed_exits_as_nested :
    AllEnter suppressingList ∧
      exitCalls (unitOfWork suppressingList failingBody []).2 =
        [(1, some (.error "ValueError" "bad")), (0, none)] ∧
      exitCalls (nested 0 suppressingList failingBody []).2 =
        [(1, some (.error "ValueError" "bad")), (0, none)] := by
  have h := exits_as_nested suppressingList failingBody [] suppressingList_enters
  exact ⟨suppressingList_enters, by rw [h.1]; rfl, by rw [h.2.1]; rfl⟩

/-- The exception `e` of the body is suppressed and nothing outside raises again: some
context answers true to what arrives at it, and all contexts around it leave cleanly. -/
def Silenced (ctxs : List (Context ε)) (e : PyExc) : Prop :=
  ∃ outer c inner arrived, ctxs = outer ++ c :: inner ∧ arriving inner (some e) = some arrived ∧
    (c.exit (some arrived)).1 = .ok true ∧
      ∀ d ∈ outer, ∃ suppressed, (d.exit none).1 = .ok suppressed

theorem pendingAfter_none_iff (exc : Option PyExc) (answer : Except PyExc Bool) :
    pendingAfter exc answer = none ↔
      (exc = none ∧ ∃ suppressed, answer = .ok suppressed) ∨ (exc.isSome ∧ answer = .ok true) := by
  cases answer with
  | error e => simp [pendingAfter]
  | ok suppressed => cases exc <;> cases suppressed <;> simp [pendingAfter]

/-- Nothing is left of an exception exactly where it is silenced. -/
theorem arriving_none_iff (ctxs : List (Context ε)) (e : PyExc) :
    arriving ctxs (some e) = none ↔ Silenced ctxs e := by
  induction ctxs with
  | nil => simp [Silenced]
  | cons c cs ih =>
    rw [arriving_cons, pendingAfter_none_iff]
    constructor
    · rintro (⟨hnone, hclean⟩ | ⟨hsome, htrue⟩)
      · obtain ⟨outer, d, inner, arrived, rfl, harr, hd, houter⟩ := ih.mp hnone
        refine ⟨c :: outer, d, inner, arrived, rfl, harr, hd, ?_⟩
        intro d' hd'
        obtain rfl | hmem := List.mem_cons.mp hd'
        · rwa [hnone] at hclean
        · exact houter d' hmem
      · obtain ⟨arrived, harr⟩ := Option.isSome_iff_exists.mp hsome
        rw [harr] at htrue
        exact ⟨[], c, cs, arrived, rfl, harr, htrue, by simp⟩
    · rintro ⟨outer, d, inner, arrived, heq, harr, hd, houter⟩
      cases outer with
      | nil =>
        cases heq
        exact .inr (by simp [harr, hd])
      | cons c' outer =>
        cases heq
        have hnone := ih.mpr ⟨outer, d, inner, arrived, rfl, harr, hd,
          fun d' hd' => houter d' (by simp [hd'])⟩
        rw [hnone]
        exact .inl ⟨rfl, houter c (by simp)⟩

/-- What leaves the manager unchanged. -/
theorem letOut_eq_iff (thrown : Option PyExc) (e : PyExc) :
    letOut thrown e = e ↔ (endsIteration e = true → thrown = some e) := by
  cases e with
  | error kind text =>
    by_cases hend : endsIteration (.error kind text) = true
    · by_cases hthrown : thrown = some (.error kind text)
      · simp [letOut, hthrown]
      · have hkind : "RuntimeError" ≠ kind := by
          rintro rfl
          simp [endsIteration] at hend
        simp [letOut, hend, hthrown, hkind]
    · simp [letOut, hend]
  | _ => simp [letOut, endsIteration]

/-- The first context that does not enter. -/
theorem exists_unentered {ctxs : List (Context ε)} (h : ¬AllEnter ctxs) :
    ∃ before c rest e, ctxs = before ++ c :: rest ∧ AllEnter before ∧ c.enter.1 = .error e := by
  induction ctxs with
  | nil => exact absurd (fun c hc => by simp at hc) h
  | cons c cs ih =>
    cases hc : c.enter.1 with
    | error e => exact ⟨[], c, cs, e, rfl, fun d hd => by simp at hd, hc⟩
    | ok u =>
      have hcs : ¬AllEnter cs := by
        intro hall
        apply h
        intro d hd
        obtain rfl | hd := List.mem_cons.mp hd
        · exact hc
        · exact hall d hd
      obtain ⟨before, d, rest, e, rfl, hbefore, hd⟩ := ih hcs
      refine ⟨c :: before, d, rest, e, rfl, ?_, hd⟩
      intro d' hd'
      obtain rfl | hmem := List.mem_cons.mp hd'
      · exact hc
      · exact hbefore d' hmem

section Unentered

variable {before : List (Context ε)} {c : Context ε} {e : PyExc} (hbefore : AllEnter before)
  (hc : c.enter.1 = .error e) (rest : List (Context ε))
include hbefore hc

theorem enterAll_unentered (n : Nat) (s : σ) :
    enterAll n (before ++ c :: rest) s = (.error e, Traced.record
      (enterTrace n before ++ c.enter.2.map (.effect (n + before.length))) s) := by
  induction before generalizing n s with
  | nil => simpa [enterTrace] using enterAll_cons_error hc rest n s
  | cons d ds ih =>
    have hn : n + 1 + ds.length = n + (d :: ds).length := by simp; omega
    rw [List.cons_append, enterAll_cons_ok (hbefore d (by simp)),
      ih (fun d' hd' => hbefore d' (by simp [hd'])), Traced.record_record, hn, enterTrace]
    simp

/-- A failed start of the provider: nothing is exited. -/
theorem unitOfWork_failed_start (body : Prog σ PyExc Unit) (s : σ) :
    unitOfWork (before ++ c :: rest) body s = (.error (letOut none e), Traced.record
      (enterTrace 0 before ++ c.enter.2.map (.effect before.length)) s) := by
  have h := unitOfWork_unentered (enterAll_unentered hbefore hc rest 0 s) body
  rwa [Nat.zero_add] at h

/-- A failed start of the nested statements: the contexts around see the exception. -/
theorem nested_failed_start (body : Prog σ PyExc Unit) (s : σ) :
    (nested 0 (before ++ c :: rest) body s).1 = replyOf (arriving before (some e)) := by
  have hinner := asyncWith_unentered hc before.length
    (nested (before.length + 1) rest body) (Traced.record (enterTrace 0 before) s)
  rw [nested_append, Nat.zero_add, nested, nested_run before 0 _ s hbefore hinner]
  rfl

end Unentered

/-- When the provider ends as the nested statements do: what a context raises on enter
passes the contexts around it, the exception of the body is not silenced, and no exit
leaves the end of an iteration pending. -/
structure EndsAsNested (ctxs : List (Context ε)) (outcome : Reply) : Prop where
  unentered : ∀ before c rest e, ctxs = before ++ c :: rest → AllEnter before →
    c.enter.1 = .error e → arriving before (some e) = some (letOut none e)
  unsilenced : AllEnter ctxs → ∀ e, outcome = .error e → ¬Silenced ctxs e
  iterating : AllEnter ctxs → ∀ e, arriving ctxs (raisedBy outcome) = some e →
    endsIteration e = true → outcome = .error e

/-- How a list that enters decides: by what is left of the exception outside it. -/
theorem leaves_as_nested_iff {ctxs : List (Context ε)} (hall : AllEnter ctxs) (r : Reply) :
    leaves (arriving ctxs (raisedBy r)) r = replyOf (arriving ctxs (raisedBy r)) ↔
      EndsAsNested ctxs r := by
  have hentered : ∀ before c rest e, ctxs = before ++ c :: rest → AllEnter before →
      c.enter.1 = .error e → arriving before (some e) = some (letOut none e) := by
    rintro before c rest e rfl - hc
    have hok := hall c (by simp)
    rw [hc] at hok
    cases hok
  cases hleft : arriving ctxs (raisedBy r) with
  | none =>
    cases r with
    | ok u =>
      have hends : EndsAsNested ctxs (.ok u) := by
        refine ⟨hentered, ?_, ?_⟩
        · intro _ e he
          cases he
        · intro _ e he
          rw [hleft] at he
          cases he
      simp [leaves, replyOf, hends]
    | error e =>
      have hsilenced : Silenced ctxs e := (arriving_none_iff ctxs e).mp hleft
      have hnot : ¬EndsAsNested ctxs (.error e) := fun h => h.unsilenced hall e rfl hsilenced
      simp [leaves, replyOf, hnot]
  | some left =>
    have hiff : leaves (some left) r = replyOf (some left) ↔
        (endsIteration left = true → raisedBy r = some left) := by
      simp [leaves, replyOf, letOut_eq_iff]
    rw [hiff]
    constructor
    · intro hiter
      refine ⟨hentered, ?_, ?_⟩
      · rintro - e rfl hsilenced
        have hnone := (arriving_none_iff ctxs e).mpr hsilenced
        rw [raisedBy, hnone] at hleft
        cases hleft
      · intro _ e he hend
        rw [hleft] at he
        cases he
        rw [← replyOf_raisedBy r, hiter hend]
        rfl
    · intro h hend
      rw [h.iterating hall left hleft hend]
      rfl

/-- The provider ends as the nested statements do exactly under `EndsAsNested`. -/
theorem outcome_as_nested_iff (ctxs : List (Context ε)) (body : Prog σ PyExc Unit) (s : σ) :
    (unitOfWork ctxs body s).1 = (nested 0 ctxs body s).1 ↔
      EndsAsNested ctxs (body (Traced.record (enterTrace 0 ctxs) s)).1 := by
  by_cases hall : AllEnter ctxs
  · rw [unitOfWork_run ctxs body s hall rfl, nested_run ctxs 0 body s hall rfl,
      exitPending_exitOrder]
    exact leaves_as_nested_iff hall _
  · have hsplit : ∀ before c rest e, ctxs = before ++ c :: rest → AllEnter before →
        c.enter.1 = .error e → ((unitOfWork ctxs body s).1 = (nested 0 ctxs body s).1 ↔
          arriving before (some e) = some (letOut none e)) := by
      rintro before c rest e rfl hbefore hc
      rw [unitOfWork_failed_start hbefore hc, nested_failed_start hbefore hc]
      cases arriving before (some e) with
      | none => simp [replyOf]
      | some left => simp [replyOf, eq_comm]
    obtain ⟨before, c, rest, e, hctxs, hbefore, hc⟩ := exists_unentered hall
    constructor
    · intro hsame
      refine ⟨?_, fun h => absurd h hall, fun h => absurd h hall⟩
      intro before' c' rest' e' hctxs' hbefore' hc'
      exact (hsplit before' c' rest' e' hctxs' hbefore' hc').mp hsame
    · intro h
      exact (hsplit before c rest e hctxs hbefore hc).mpr
        (h.unentered before c rest e hctxs hbefore hc)

/-- The suppressed exception of the body reaches the caller of the provider; the nested
statements end normally. -/
theorem suppressed_reaches_caller :
    (unitOfWork suppressingList failingBody []).1 = .error (.error "ValueError" "bad") ∧
      (nested 0 suppressingList failingBody []).1 = .ok () := ⟨rfl, rfl⟩

/-- A session interceptor whose database refuses the connection. -/
def refusedSession : Interceptors.Interceptor :=
  Interceptors.aioSqlAlchemySessionInterceptor "reports"
    { begins := .error (.error "OperationalError" "refused") }

def idleBody : Prog (List (UowEvent Interceptors.Effect)) PyExc Unit := pure ()

/-- A failed start gives back what was acquired exactly where nothing was: its context is
the first of the list. -/
theorem failed_start_released_iff {before : List (Context ε)} {c : Context ε} {e : PyExc}
    (hbefore : AllEnter before) (hc : c.enter.1 = .error e) (rest : List (Context ε))
    (body : Prog (List (UowEvent ε)) PyExc Unit) :
    (exitCalls (unitOfWork (before ++ c :: rest) body []).2 =
        (List.range before.length).reverse.map (·, some e) ∧
      (unitOfWork (before ++ c :: rest) body []).1 = .error e) ↔
      before = [] ∧ endsIteration e = false := by
  have hcalls : exitCalls (unitOfWork (before ++ c :: rest) body []).2 = [] := by
    rw [unitOfWork_failed_start hbefore hc]
    change exitCalls ([] ++ (enterTrace 0 before ++ _)) = []
    rw [List.nil_append, exitCalls_append, exitCalls_enterTrace, exitCalls_effects]
    rfl
  have hraised : (unitOfWork (before ++ c :: rest) body []).1 = .error e ↔
      endsIteration e = false := by
    rw [unitOfWork_failed_start hbefore hc]
    simp [letOut_eq_iff]
  rw [hcalls, hraised]
  cases before with
  | nil => simp
  | cons d ds => simp [List.range_succ]

/-- A provider without a container whose only session refuses the connection. -/
theorem first_refused_released :
    AllEnter ([] : List (Context Interceptors.Effect)) ∧
      (unitOfWork [refusedSession.intercept ⟨Headers.empty, []⟩] idleBody []).1 =
        .error (.error "OperationalError" "refused") := by
  have hnone : AllEnter ([] : List (Context Interceptors.Effect)) := fun c hc => by simp at hc
  exact ⟨hnone, ((failed_start_released_iff hnone rfl [] idleBody).mpr ⟨rfl, rfl⟩).2⟩

/-- Two session interceptors of one application; the second database refuses. -/
def refusedSessions : List (Context Interceptors.Effect) :=
  Interceptors.contextsOf Headers.empty []
    [Interceptors.aioSqlAlchemySessionInterceptor "default" {}, refusedSession]

/-- The container and the first session are open when the second one refuses, and
neither is exited. -/
theorem refused_session_leaks :
    unitOfWork refusedSessions idleBody [] =
        (.error (.error "OperationalError" "refused"), [.entered 0, .entered 1]) ∧
      exitCalls (unitOfWork refusedSessions idleBody []).2 ≠
        [(1, some (.error "OperationalError" "refused")),
          (0, some (.error "OperationalError" "refused"))] := by
  have hrun : unitOfWork refusedSessions idleBody [] =
      (.error (.error "OperationalError" "refused"), [.entered 0, .entered 1]) := rfl
  refine ⟨hrun, ?_⟩
  rw [hrun]
  simp [exitCalls]

end NestedContexts

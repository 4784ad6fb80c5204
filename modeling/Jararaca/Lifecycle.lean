import Jararaca.NestedContexts

/-!
# The application lifecycle

`AppLifecycle.__call__` of lifecycle.py: it enters the lifecycle contexts of the
interceptors one after the other, gives control to the application at its yield and
exits the contexts afterwards. There is no `try` around the yield and the exit loop
goes forwards, so the contexts nest only where at most one of them was entered.
-/
namespace Lifecycle

open Programs Messages UnitOfWork NestedContexts

variable {ε : Type}

/-- An entry of `app.interceptors`: how the container resolves it, and what its
`lifecycle` attribute gives when it is called, if it has one. -/
structure AppInterceptor (ε : Type) where
  resolves : Reply := .ok ()
  lifecycle : Option (Except PyExc (Context ε)) := none

/-- `is_interceptor_with_lifecycle`. -/
def AppInterceptor.hasLifecycle (i : AppInterceptor ε) : Bool := i.lifecycle.isSome

/-- The application and its container, as one start meets them. -/
structure App (ε : Type) where
  shutdownEvent : Option Bool := none
  interceptors : List (AppInterceptor ε)
  -- the argument is `after_interceptors`
  fillProviders : Bool → Reply := fun _ => .ok ()

/-- What a start changes: `__real_interceptors`, the startup event of the application and
the trace of its lifecycle contexts, by their positions in `lifecycle_ctxs`. -/
structure Started (ε : Type) where
  realInterceptors : Option (List (AppInterceptor ε)) := none
  startupCompleteEvent : Option Bool := none
  trace : List (UowEvent ε) := []

instance : Traced (Started ε) ε where
  record events s := { s with trace := s.trace ++ events }
  record_nil s := by simp
  record_record first second s := by simp

/-- `self.__real_interceptors.append(interceptor)`. -/
def Started.resolved (s : Started ε) (i : AppInterceptor ε) : Started ε :=
  { s with realInterceptors := s.realInterceptors.map (· ++ [i]) }

/-- The loop over `app.interceptors`; `ctxs` is `lifecycle_ctxs` so far. -/
def startInterceptors :
    List (AppInterceptor ε) → List (Context ε) → Prog (Started ε) PyExc (List (Context ε))
  | [], ctxs => pure ctxs
  | i :: is, ctxs => do
    Prog.ofExcept i.resolves
    Prog.modify (·.resolved i)
    match i.lifecycle with
    | none => startInterceptors is ctxs
    | some called => do
      let ctx ← Prog.ofExcept called
      Prog.modify (Traced.record (ctx.enter.2.map (.effect ctxs.length)))
      Prog.ofExcept ctx.enter.1
      Prog.modify (Traced.record [.entered ctxs.length])
      startInterceptors is (ctxs ++ [ctx])

/-- `__call__` up to its yield. -/
def startup (app : App ε) : Prog (Started ε) PyExc (List (Context ε)) := do
  Prog.when (app.shutdownEvent == some true) (Prog.raise (.baseException "SystemExit"))
  Prog.modify fun s => { s with realInterceptors := some [] }
  Prog.ofExcept (app.fillProviders false)
  let ctxs ← startInterceptors app.interceptors []
  Prog.ofExcept (app.fillProviders true)
  Prog.modify fun s => { s with startupCompleteEvent := s.startupCompleteEvent.map fun _ => true }
  pure ctxs

/-- `for ctx in lifecycle_ctxs: await ctx.__aexit__(None, None, None)`, from position `n` on. -/
def finalize (n : Nat) : List (Context ε) → Prog (Started ε) PyExc Unit
  | [] => pure ()
  | c :: cs => do
    Prog.modify (Traced.record (exitEvents c n none))
    let _ ← Prog.ofExcept (c.exit none).1
    finalize (n + 1) cs

/-- `async with lifecycle():` around an application that ends with `body`. -/
def appLifecycle (app : App ε) (body : Reply) : Prog (Started ε) PyExc Unit := do
  let ctxs ← Prog.tryExcept (startup app) (fun e => Prog.raise (letOut none e))
  match body with
  -- what is thrown at the yield leaves the generator there
  | .error e => Prog.raise e
  | .ok _ => Prog.tryExcept (finalize 0 ctxs) (fun e => Prog.raise (letOut none e))

def entries (events : List (UowEvent ε)) : List Nat :=
  events.filterMap fun
    | .entered p => some p
    | _ => none

def exits (events : List (UowEvent ε)) : List Nat := (exitCalls events).map Prod.fst

/-- How one round of the loop ends. -/
def AppInterceptor.starts (i : AppInterceptor ε) : Reply := do
  i.resolves
  match i.lifecycle with
  | none => pure ()
  | some called => do
    let ctx ← called
    ctx.enter.1

def AppInterceptor.started (i : AppInterceptor ε) : Bool := i.starts.isOk

def opened (interceptors : List (AppInterceptor ε)) : List (AppInterceptor ε) :=
  (interceptors.takeWhile AppInterceptor.started).filter AppInterceptor.hasLifecycle

/-- The loop is reached. -/
def App.begins (app : App ε) : Bool :=
  app.shutdownEvent != some true && (app.fillProviders false).isOk

/-- The interceptors whose lifecycle a start of the application enters. -/
def App.opened (app : App ε) : List (AppInterceptor ε) :=
  if app.begins then Lifecycle.opened app.interceptors else []

/-- The yield is reached. -/
def App.startsUp (app : App ε) : Bool :=
  app.begins && app.interceptors.all AppInterceptor.started && (app.fillProviders true).isOk

@[simp] theorem record_trace (events : List (UowEvent ε)) (s : Started ε) :
    (Traced.record events s).trace = s.trace ++ events := rfl

@[simp] theorem entries_nil : entries ([] : List (UowEvent ε)) = [] := rfl

@[simp] theorem exits_nil : exits ([] : List (UowEvent ε)) = [] := rfl

@[simp] theorem entries_append (first second : List (UowEvent ε)) :
    entries (first ++ second) = entries first ++ entries second := List.filterMap_append ..

@[simp] theorem exits_append (first second : List (UowEvent ε)) :
    exits (first ++ second) = exits first ++ exits second := by
  rw [exits, exitCalls_append, List.map_append, exits, exits]

@[simp] theorem entries_effects (effects : List ε) (n : Nat) :
    entries (effects.map (.effect n)) = [] := by
  simp [entries, List.filterMap_map]

@[simp] theorem exits_effects (effects : List ε) (n : Nat) :
    exits (effects.map (.effect n)) = [] := by
  rw [exits, exitCalls_effects, List.map_nil]

@[simp] theorem entries_entered (n : Nat) : entries [(.entered n : UowEvent ε)] = [n] := rfl

@[simp] theorem exits_entered (n : Nat) : exits [(.entered n : UowEvent ε)] = [] := rfl

@[simp] theorem exits_exitEvents (c : Context ε) (n : Nat) (exc : Option PyExc) :
    exits (exitEvents c n exc) = [n] := by
  rw [exits, exitCalls_exitEvents, List.map_singleton]

@[simp] theorem entries_exitEvents (c : Context ε) (n : Nat) (exc : Option PyExc) :
    entries (exitEvents c n exc) = [] := by
  have hcall : entries (.exited n exc :: (c.exit exc).2.map (.effect n)) = [] := by
    rw [← List.singleton_append, entries_append, entries_effects]
    rfl
  rw [exitEvents, entries_append, hcall]
  cases (c.exit exc).1 <;> rfl

@[simp] theorem resolved_trace (s : Started ε) (i : AppInterceptor ε) :
    (s.resolved i).trace = s.trace := rfl

theorem started_iff (i : AppInterceptor ε) :
    i.started = true ↔ i.resolves = .ok () ∧
      ∀ called, i.lifecycle = some called → ∃ ctx, called = .ok ctx ∧ ctx.enter.1 = .ok () := by
  unfold AppInterceptor.started AppInterceptor.starts
  cases i.resolves with
  | error e => simp [bind, Except.bind, Except.isOk, Except.toBool]
  | ok u =>
    cases i.lifecycle with
    | none => simp [bind, Except.bind, pure, Except.pure, Except.isOk, Except.toBool]
    | some called =>
      cases called with
      | error e => simp [bind, Except.bind, Except.isOk, Except.toBool]
      | ok ctx =>
        cases he : ctx.enter.1 <;> simp [bind, Except.bind, Except.isOk, Except.toBool, he]

/-- One round that fails ends the loop; it may leave effects of the failed enter. -/
theorem startInterceptors_failed {i : AppInterceptor ε} (h : i.started = false)
    (is : List (AppInterceptor ε)) (ctxs : List (Context ε)) (s : Started ε) :
    ∃ e t, startInterceptors (i :: is) ctxs s = (.error e, t) ∧
      entries t.trace = entries s.trace ∧ exits t.trace = exits s.trace := by
  have hnot : ¬i.started = true := by simp [h]
  rw [started_iff] at hnot
  cases hr : i.resolves with
  | error e => exact ⟨e, s, by simp [startInterceptors, Prog.bind_run, hr], rfl, rfl⟩
  | ok u =>
    cases hl : i.lifecycle with
    | none => exact absurd ⟨hr, by simp [hl]⟩ hnot
    | some called =>
      cases called with
      | error e =>
        exact ⟨e, s.resolved i, by simp [startInterceptors, Prog.bind_run, hr, hl], rfl, rfl⟩
      | ok ctx =>
        cases he : ctx.enter.1 with
        | ok u => exact absurd ⟨hr, by simp [hl, he]⟩ hnot
        | error e =>
          refine ⟨e, Traced.record (ctx.enter.2.map (.effect ctxs.length)) (s.resolved i), ?_, ?_,
            ?_⟩
          · simp [startInterceptors, Prog.bind_run, hr, hl, he]
          · simp
          · simp

/-- One round that succeeds enters the lifecycle of its interceptor, if it has one. -/
theorem startInterceptors_started {i : AppInterceptor ε} (h : i.started = true)
    (is : List (AppInterceptor ε)) (ctxs : List (Context ε)) (s : Started ε) :
    ∃ more t, startInterceptors (i :: is) ctxs s = startInterceptors is (ctxs ++ more) t ∧
      more.length = (if i.hasLifecycle then 1 else 0) ∧
      entries t.trace = entries s.trace ++ List.range' ctxs.length more.length ∧
      exits t.trace = exits s.trace := by
  obtain ⟨hr, hcalled⟩ := (started_iff i).mp h
  cases hl : i.lifecycle with
  | none =>
    refine ⟨[], s.resolved i, ?_, ?_, ?_, rfl⟩
    · simp [startInterceptors, Prog.bind_run, hr, hl]
    · simp [AppInterceptor.hasLifecycle, hl]
    · simp
  | some called =>
    obtain ⟨ctx, rfl, he⟩ := hcalled called hl
    refine ⟨[ctx], Traced.record (ctx.enter.2.map (.effect ctxs.length) ++ [.entered ctxs.length])
      (s.resolved i), ?_, ?_, ?_, ?_⟩
    · simp [startInterceptors, Prog.bind_run, hr, hl, he, Traced.record_record]
    · simp [AppInterceptor.hasLifecycle, hl]
    · simp
    · simp

/-- The whole loop: it enters the opened lifecycles in order, exits none, and fails where
one round fails. -/
theorem startInterceptors_run (is : List (AppInterceptor ε)) (ctxs : List (Context ε))
    (s : Started ε) :
    ∃ t, entries t.trace = entries s.trace ++ List.range' ctxs.length (opened is).length ∧
      exits t.trace = exits s.trace ∧
      (if is.all AppInterceptor.started then
        ∃ more, startInterceptors is ctxs s = (.ok (ctxs ++ more), t) ∧
          more.length = (opened is).length
      else ∃ e, startInterceptors is ctxs s = (.error e, t)) := by
  induction is generalizing ctxs s with
  | nil => exact ⟨s, by simp [opened], rfl, by simp [startInterceptors, opened]⟩
  | cons i is ih =>
    cases h : i.started with
    | false =>
      obtain ⟨e, t, hrun, hentries, hexits⟩ := startInterceptors_failed h is ctxs s
      exact ⟨t, by simp [opened, h, hentries], hexits, by simp [h, hrun]⟩
    | true =>
      obtain ⟨more, t, hrun, hmore, hentries, hexits⟩ := startInterceptors_started h is ctxs s
      obtain ⟨t', hentries', hexits', hrest⟩ := ih (ctxs ++ more) t
      have hlen : (opened (i :: is)).length = more.length + (opened is).length := by
        rw [hmore]
        cases hl : i.hasLifecycle <;> simp [opened, h, hl]
        omega
      refine ⟨t', ?_, hexits'.trans hexits, ?_⟩
      · rw [hentries', hentries, hlen, List.append_assoc, List.length_append]
        rw [← List.range'_append_1]
      · rw [hrun, hlen]
        simp only [List.all_cons, h, Bool.true_and]
        split at hrest
        · rename_i hall
          obtain ⟨rest, hr, hrlen⟩ := hrest
          rw [if_pos hall]
          exact ⟨more ++ rest, by rw [hr, List.append_assoc], by simp [hrlen]⟩
        · rename_i hall
          rw [if_neg hall]
          exact hrest

/-- The exit loop starts with the first context and gets further only if that one lets it. -/
theorem finalize_run (n : Nat) (c : Context ε) (cs : List (Context ε)) (s : Started ε) :
    ∃ more, exits (finalize n (c :: cs) s).2.trace = exits s.trace ++ n :: more ∧
      entries (finalize n (c :: cs) s).2.trace = entries s.trace ∧ (cs = [] → more = []) := by
  induction cs generalizing n c s with
  | nil =>
    cases hexit : (c.exit none).1 <;>
      exact ⟨[], by simp [finalize, Prog.bind_run, hexit], by simp [finalize, Prog.bind_run, hexit],
        fun _ => rfl⟩
  | cons d ds ih =>
    cases hexit : (c.exit none).1 with
    | error e =>
      exact ⟨[], by simp [finalize, Prog.bind_run, hexit], by simp [finalize, Prog.bind_run, hexit],
        fun _ => rfl⟩
    | ok suppressed =>
      obtain ⟨more, hexits, hentries, -⟩ := ih (n + 1) d (Traced.record (exitEvents c n none) s)
      have hrun : finalize n (c :: d :: ds) s =
          finalize (n + 1) (d :: ds) (Traced.record (exitEvents c n none) s) := by
        simp only [finalize, Prog.bind_run, Prog.modify_run, Prog.ofExcept_run, hexit]
      refine ⟨(n + 1) :: more, ?_, ?_, fun h => by cases h⟩
      · rw [hrun, hexits]
        simp
      · rw [hrun, hentries]
        simp

/-- A start of the application. -/
theorem startup_run (app : App ε) (real : Option (List (AppInterceptor ε)))
    (complete : Option Bool) :
    ∃ t, entries t.trace = List.range app.opened.length ∧ exits t.trace = [] ∧
      (if app.startsUp then
        ∃ ctxs, startup app ⟨real, complete, []⟩ = (.ok ctxs, t) ∧ ctxs.length = app.opened.length
      else ∃ e, startup app ⟨real, complete, []⟩ = (.error e, t)) := by
  cases hshut : app.shutdownEvent == some true with
  | true =>
    refine ⟨⟨real, complete, []⟩, ?_, rfl, ?_⟩
    · simp [App.opened, App.begins, bne, hshut]
    · simp [App.startsUp, App.begins, bne, startup, Prog.bind_run, hshut]
  | false =>
  cases hfill : app.fillProviders false with
  | error e =>
    refine ⟨⟨some [], complete, []⟩, ?_, rfl, ?_⟩
    · simp [App.opened, App.begins, hfill, Except.isOk, Except.toBool]
    · simp [App.startsUp, App.begins, startup, Prog.bind_run, hshut, hfill, Except.isOk,
        Except.toBool]
  | ok u =>
    have hbegins : app.begins = true := by
      simp [App.begins, bne, hshut, hfill, Except.isOk, Except.toBool]
    have hopened : app.opened = opened app.interceptors := by rw [App.opened, if_pos hbegins]
    obtain ⟨t, hentries, hexits, hrun⟩ :=
      startInterceptors_run app.interceptors [] ⟨some [], complete, []⟩
    rw [List.length_nil, ← List.range_eq_range'] at hentries
    rw [hopened, App.startsUp, hbegins, Bool.true_and]
    split at hrun
    · rename_i hall
      obtain ⟨ctxs, hloop, hlen⟩ := hrun
      rw [List.nil_append] at hloop
      cases hafter : app.fillProviders true with
      | error e =>
        refine ⟨t, hentries, hexits, ?_⟩
        simp [startup, Prog.bind_run, hshut, hfill, hloop, hafter, Except.isOk, Except.toBool]
      | ok u =>
        refine ⟨{ t with startupCompleteEvent := t.startupCompleteEvent.map fun _ => true },
          hentries, hexits, ?_⟩
        simp [startup, Prog.bind_run, hshut, hfill, hloop, hafter, hall, hlen, Except.isOk,
          Except.toBool]
    · rename_i hall
      obtain ⟨e, hloop⟩ := hrun
      refine ⟨t, hentries, hexits, ?_⟩
      simp [startup, Prog.bind_run, hshut, hfill, hloop, hall]

/-- The trace of a whole run: the opened lifecycles are entered in order, and exits show
only after a start and a body that both end normally, from the first context on. -/
theorem appLifecycle_run (app : App ε) (body : Reply) (real : Option (List (AppInterceptor ε)))
    (complete : Option Bool) :
    let events := (appLifecycle app body ⟨real, complete, []⟩).2.trace
    entries events = List.range app.opened.length ∧
      ((exits events = [] ∧ (app.opened = [] ∨ app.startsUp = false ∨ body ≠ .ok ())) ∨
        ∃ more, exits events = 0 :: more ∧ app.opened ≠ [] ∧ app.startsUp = true ∧ body = .ok () ∧
          (app.opened.length = 1 → more = [])) := by
  obtain ⟨t, hentries, hexits, hrun⟩ := startup_run app real complete
  cases hup : app.startsUp with
  | false =>
    rw [hup] at hrun
    obtain ⟨e, hstart⟩ := hrun
    have hend : appLifecycle app body ⟨real, complete, []⟩ = (.error (letOut none e), t) :=
      Prog.bind_error (Prog.tryExcept_error hstart _) _
    rw [hend]
    exact ⟨hentries, .inl ⟨hexits, .inr (.inl rfl)⟩⟩
  | true =>
    rw [hup, if_pos rfl] at hrun
    obtain ⟨ctxs, hstart, hlen⟩ := hrun
    have htry := Prog.tryExcept_ok hstart (fun e => Prog.raise (letOut none e))
    cases body with
    | error e =>
      have hend : appLifecycle app (.error e) ⟨real, complete, []⟩ = (.error e, t) := by
        rw [appLifecycle, Prog.bind_ok htry]
        rfl
      rw [hend]
      exact ⟨hentries, .inl ⟨hexits, .inr (.inr (by simp))⟩⟩
    | ok u =>
      have hend : (appLifecycle app (.ok u) ⟨real, complete, []⟩).2 = (finalize 0 ctxs t).2 := by
        rw [appLifecycle, Prog.bind_ok htry]
        change (Prog.tryExcept (finalize 0 ctxs) (fun e => Prog.raise (letOut none e)) t).2 = _
        cases hf : finalize 0 ctxs t with
        | mk r t' =>
          cases r with
          | ok u => rw [Prog.tryExcept_ok hf]
          | error e => rw [Prog.tryExcept_error hf, Prog.raise_run]
      rw [hend]
      cases ctxs with
      | nil =>
        have hnone : app.opened = [] := List.length_eq_zero_iff.mp hlen.symm
        exact ⟨hentries, .inl ⟨hexits, .inl hnone⟩⟩
      | cons c cs =>
        obtain ⟨more, hmore, hsame, hlast⟩ := finalize_run 0 c cs t
        refine ⟨hsame.trans hentries, .inr ⟨more, ?_, ?_, rfl, rfl, ?_⟩⟩
        · rw [hmore, hexits, List.nil_append]
        · intro hnil
          rw [hnil] at hlen
          cases hlen
        · intro hone
          apply hlast
          rw [hone] at hlen
          exact List.length_eq_zero_iff.mp (Nat.succ.inj hlen)

/-- The lifecycle contexts nest exactly where none was entered, or where a single one was
and both the start and the body end normally. -/
theorem lifecycle_nested_iff (app : App ε) (body : Reply)
    (real : Option (List (AppInterceptor ε))) (complete : Option Bool) :
    let events := (appLifecycle app body ⟨real, complete, []⟩).2.trace
    (entries events).Nodup ∧
      (exits events = (entries events).reverse ↔
        app.opened = [] ∨ (app.opened.length = 1 ∧ app.startsUp = true ∧ body = .ok ())) := by
  intro events
  obtain ⟨hentries, hcases⟩ := appLifecycle_run app body real complete
  refine ⟨by rw [hentries]; exact List.nodup_range, ?_⟩
  rw [hentries]
  obtain ⟨hexits, hwhy⟩ | ⟨more, hexits, hopened, hup, hbody, hone⟩ := hcases
  · -- nothing is exited: right only where nothing was entered
    rw [hexits]
    constructor
    · intro h
      left
      apply List.length_eq_zero_iff.mp
      simpa using (congrArg List.length h).symm
    · rintro (hnil | ⟨hlen, hup, hbody⟩)
      · rw [hnil]
        rfl
      · obtain hnil | hdown | hraised := hwhy
        · rw [hnil] at hlen
          cases hlen
        · rw [hdown] at hup
          cases hup
        · exact absurd hbody hraised
  · -- the first context is exited first: it must have been the last one entered
    rw [hexits]
    cases hlen : app.opened.length with
    | zero => exact absurd (List.length_eq_zero_iff.mp hlen) hopened
    | succ m =>
      cases m with
      | zero => simp [hone hlen, hup, hbody]
      | succ m => simp [List.range_succ, hopened]

/-- An interceptor whose lifecycle enters and exits without effects. -/
def plainLifecycle : AppInterceptor Unit where
  lifecycle := some (.ok (Context.ofGenerator (pure ()) (fun
    | none => pure ()
    | some e => Prog.raise e)))

/-- Two interceptors with a lifecycle, as a message bus and a websocket one. -/
def twoLifecycles : App Unit where
  interceptors := [plainLifecycle, {}, plainLifecycle]

/-- Two lifecycles and a body that ends normally are exited in the order of entry; after
a body that raises they are not exited at all. -/
theorem two_lifecycles_not_nested :
    (appLifecycle twoLifecycles (.ok ()) {}).2.trace =
        [.entered 0, .entered 1, .exited 0 none, .exited 1 none] ∧
      (appLifecycle twoLifecycles (.error (.error "OSError" "port in use")) {}).2.trace =
        [.entered 0, .entered 1] ∧
      exits (appLifecycle twoLifecycles (.ok ()) {}).2.trace ≠
        (entries (appLifecycle twoLifecycles (.ok ()) {}).2.trace).reverse :=
  ⟨rfl, rfl, by decide⟩

end Lifecycle

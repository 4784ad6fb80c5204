import Mathlib.Logic.Function.Basic
import Mathlib.Tactic.Common
import Jararaca.Messages

/-!
# Sessions by connection name

The context variables of aiosqa_interceptor.py and the context managers that set them:
the session manager, the default connection name and the map from connection names to
sessions. Each block sets variables and its exit resets them to what they were. Every
name handed to a block or to `use_session` goes through `ensure_name`, which answers with
the default connection name whatever it is asked.
-/
namespace NamedSessions

open Messages

/-- A session, and the connection whose engine it is bound to. -/
structure Session where
  ref : Nat
  engine : String
  deriving DecidableEq, Repr

structure PersistenceCtx where
  session : Session
  tx : Nat
  deriving DecidableEq, Repr

def defaultConnectionName : String := "default"

/-- The context variables; the session manager is the interceptor of a connection. -/
structure Ctx where
  sessionManager : Option String := none
  defaultName : String := defaultConnectionName
  sessionMap : String → Option PersistenceCtx := fun _ => none

def ensureName (ctx : Ctx) (_name : Option String) : String := ctx.defaultName

/-- The context managers around a point of the code. `inject` is what the metadata of the
transaction says about the connection of an interceptor; `opens` and `commits` are the
answers of the database where a block opens a session of its own. -/
inductive Block where
  | intercept (connectionName : String) (inject : Bool) (session tx : Nat) (opens commits : Reply)
  | providingSession (session : Session) (tx : Nat) (name : Option String)
  | providingTransaction (tx : Nat) (name : Option String)
  | providingNewSession (name : Option String) (session tx : Nat) (opens commits : Reply)
  | providingNewOrCurrentSession (name : Option String) (session tx : Nat) (opens commits : Reply)

section Code

variable (ctx : Ctx)

/-- The first half of `providing_session`. -/
def provide (session : Session) (tx : Nat) (name : Option String) : Ctx :=
  { ctx with
    sessionMap := Function.update ctx.sessionMap (ensureName ctx name) (some ⟨session, tx⟩) }

/-- The first half of `providing_new_session`. -/
def provideNew (name : Option String) (session tx : Nat) (opens : Reply) : Except PyExc Ctx :=
  match ctx.sessionManager with
  | none => .error (.error "ValueError" "No session manager set in the context.")
  | some engine => opens.map fun _ => provide ctx ⟨session, engine⟩ tx name

/-- Entering a block: up to its `yield`. -/
def enter : Block → Except PyExc Ctx
  | .intercept connectionName inject session tx opens _ =>
    let managed := { ctx with sessionManager := some connectionName }
    if inject then opens.map fun _ =>
      provide { managed with defaultName := connectionName } ⟨session, connectionName⟩ tx
        (some connectionName)
    else .ok managed
  | .providingSession session tx name => .ok (provide ctx session tx name)
  | .providingTransaction tx name =>
    match ctx.sessionMap (ensureName ctx name) with
    | none =>
      .error (.error "ValueError" ("No session found for connection " ++ ensureName ctx name))
    | some current => .ok (provide ctx current.session tx (some (ensureName ctx name)))
  | .providingNewSession name session tx opens _ => provideNew ctx name session tx opens
  | .providingNewOrCurrentSession name session tx opens _ =>
    if (ctx.sessionMap (ensureName ctx name)).isSome then .ok ctx
    else provideNew ctx name session tx opens

/-- Leaving a block that was entered in `ctx`: each variable it set goes back to the value
in the token, the others stay as the body left them. -/
def leave (after : Ctx) : Block → Ctx
  | .intercept _ inject _ _ _ _ =>
    if inject then ⟨ctx.sessionManager, ctx.defaultName, ctx.sessionMap⟩
    else { after with sessionManager := ctx.sessionManager }
  | .providingSession _ _ _ => { after with sessionMap := ctx.sessionMap }
  | .providingTransaction _ _ => { after with sessionMap := ctx.sessionMap }
  | .providingNewSession _ _ _ _ _ => { after with sessionMap := ctx.sessionMap }
  | .providingNewOrCurrentSession name _ _ _ _ =>
    if (ctx.sessionMap (ensureName ctx name)).isSome then after
    else { after with sessionMap := ctx.sessionMap }

/-- What leaving a block makes of the outcome of its body: a commit may raise. -/
def outcome (b : Block) (body : Reply) : Reply :=
  match b, body with
  | _, .error e => .error e
  | .intercept _ inject _ _ _ commits, .ok _ => if inject then commits else .ok ()
  | .providingNewSession _ _ _ _ commits, .ok _ => commits
  | .providingNewOrCurrentSession name _ _ _ commits, .ok _ =>
    if (ctx.sessionMap (ensureName ctx name)).isSome then .ok () else commits
  | _, .ok _ => .ok ()

inductive Query where
  | useSession (name : Option String)
  | useTransaction (name : Option String)

inductive Found where
  | session (s : Session)
  | transaction (tx : Nat)
  deriving DecidableEq, Repr

/-- `str(name)` in the texts of the errors. -/
def shown : Option String → String
  | none => "None"
  | some name => name

/-- `use_session` and `use_transaction`; the latter looks the name up as it is given. -/
def ask : Query → Except PyExc Found
  | .useSession name =>
    match ctx.sessionMap (ensureName ctx name) with
    | none => .error (.error "ValueError" ("Session not found for connection \"" ++
        ensureName ctx name ++ "\" in context. Check if your interceptor is correctly set up."))
    | some current => .ok (.session current.session)
  | .useTransaction name =>
    match name.bind ctx.sessionMap with
    | none => .error (.error "ValueError" ("Transaction not found for connection " ++ shown name))
    | some current => .ok (.transaction current.tx)

end Code

/-- Code with nested blocks: a question is asked and its answer, a `ValueError` too, taken
note of; `attempt` catches what its body raises. -/
inductive Code where
  | done
  | raise (e : PyExc)
  | query (q : Query) (next : Code)
  | within (b : Block) (body next : Code)
  | attempt (body next : Code)

/-- A point where a question was asked, with the blocks around it, innermost first. -/
structure Point where
  path : List Block
  query : Query
  answer : Except PyExc Found

/-- Run code inside the blocks of `path`: the points passed, the outcome, the variables
afterwards. -/
def run : Code → List Block → Ctx → List Point × Reply × Ctx
  | .done, _, ctx => ([], .ok (), ctx)
  | .raise e, _, ctx => ([], .error e, ctx)
  | .query q next, path, ctx =>
    let rest := run next path ctx
    (⟨path, q, ask ctx q⟩ :: rest.1, rest.2)
  | .within b body next, path, ctx =>
    match enter ctx b with
    | .error e => ([], .error e, ctx)
    | .ok entered =>
      let inside := run body (b :: path) entered
      let left := leave ctx inside.2.2 b
      match outcome ctx b inside.2.1 with
      | .error e => (inside.1, .error e, left)
      | .ok _ =>
        let rest := run next path left
        (inside.1 ++ rest.1, rest.2)
  | .attempt body next, path, ctx =>
    let inside := run body path ctx
    let rest := run next path inside.2.2
    (inside.1 ++ rest.1, rest.2)

theorem provideNew_ok {ctx entered : Ctx} {name : Option String} {session tx : Nat} {opens : Reply}
    (h : provideNew ctx name session tx opens = .ok entered) :
    ∃ engine, ctx.sessionManager = some engine ∧
      entered = provide ctx ⟨session, engine⟩ tx name := by
  unfold provideNew at h
  cases hm : ctx.sessionManager with
  | none => simp [hm] at h
  | some engine =>
    refine ⟨engine, rfl, ?_⟩
    cases opens with
    | error e => simp [hm, Except.map] at h
    | ok _ => simpa [hm, Except.map, eq_comm] using h

/-- A block that is left at once has changed nothing. -/
theorem leave_enter {ctx entered : Ctx} {b : Block} (h : enter ctx b = .ok entered) :
    leave ctx entered b = ctx := by
  cases b with
  | intercept connectionName inject session tx opens commits =>
    cases inject with
    | true => rfl
    | false =>
      obtain rfl : { ctx with sessionManager := some connectionName } = entered := by
        simpa [enter] using h
      rfl
  | providingSession session tx name =>
    obtain rfl : provide ctx session tx name = entered := by simpa [enter] using h
    rfl
  | providingTransaction tx name =>
    cases hs : ctx.sessionMap (ensureName ctx name) with
    | none => simp [enter, hs] at h
    | some current =>
      obtain rfl : provide ctx current.session tx (some (ensureName ctx name)) = entered := by
        simpa [enter, hs] using h
      rfl
  | providingNewSession name session tx opens commits =>
    obtain ⟨engine, -, rfl⟩ := provideNew_ok h
    rfl
  | providingNewOrCurrentSession name session tx opens commits =>
    by_cases hs : (ctx.sessionMap (ensureName ctx name)).isSome = true
    · obtain rfl : ctx = entered := by simpa [enter, hs] using h
      simp [leave, hs]
    · obtain ⟨engine, -, rfl⟩ : ∃ engine, ctx.sessionManager = some engine ∧
          entered = provide ctx ⟨session, engine⟩ tx name := by
        have hnew : provideNew ctx name session tx opens =
            .ok entered := by simpa [enter, hs] using h
        exact provideNew_ok hnew
      simp [leave, hs, provide]

/-- Code leaves the variables as it found them, however it ends. -/
theorem run_restores (code : Code) (path : List Block) (ctx : Ctx) :
    (run code path ctx).2.2 = ctx := by
  induction code generalizing path ctx with
  | done => rfl
  | raise e => rfl
  | query q next ih => exact ih path ctx
  | within b body next ihBody ihNext =>
    rw [run]
    cases he : enter ctx b with
    | error e => rfl
    | ok entered =>
      have hleft : leave ctx (run body (b :: path) entered).2.2 b = ctx := by
        rw [ihBody, leave_enter he]
      simp only [hleft]
      split
      · rfl
      · exact ihNext path ctx
  | attempt body next ihBody ihNext =>
    rw [run]
    simp only [ihBody]
    exact ihNext path ctx

/-- The current default connection: that of the innermost interceptor with a session. -/
def defaultOf : List Block → String
  | [] => defaultConnectionName
  | .intercept connectionName true _ _ _ _ :: _ => connectionName
  | _ :: outer => defaultOf outer

/-- The innermost interceptor, whose engine new sessions are bound to. -/
def managerOf : List Block → Option String
  | [] => none
  | .intercept connectionName _ _ _ _ _ :: _ => some connectionName
  | _ :: outer => managerOf outer

/-- The connection that a block is for: the one it names, or else the current default. -/
def connectionOf (outer : List Block) (name : Option String) : String := name.getD (defaultOf outer)

/-- The connection a block provides, with its session and transaction, where `around` are
those of the blocks around it. -/
def provides (outer : List Block) (around : String → Option PersistenceCtx) :
    Block → Option (String × PersistenceCtx)
  | .intercept connectionName inject session tx _ _ =>
    if inject then some (connectionName, ⟨⟨session, connectionName⟩, tx⟩) else none
  | .providingSession session tx name => some (connectionOf outer name, ⟨session, tx⟩)
  | .providingTransaction tx name =>
    (around (connectionOf outer name)).map fun current =>
      (connectionOf outer name, ⟨current.session, tx⟩)
  | .providingNewSession name session tx _ _ =>
    (managerOf outer).map fun engine => (connectionOf outer name, ⟨⟨session, engine⟩, tx⟩)
  | .providingNewOrCurrentSession name session tx _ _ =>
    if (around (connectionOf outer name)).isSome then none
    else (managerOf outer).map fun engine => (connectionOf outer name, ⟨⟨session, engine⟩, tx⟩)

/-- The session and transaction of the innermost block that provides a connection. -/
def innermost : List Block → String → Option PersistenceCtx
  | [], _ => none
  | b :: outer, name =>
    match provides outer (innermost outer) b with
    | some (connection, p) => if name = connection then some p else innermost outer name
    | none => innermost outer name

/-- An answer that is what was found, or a `ValueError` where nothing was. -/
def Answers (expected : Option Found) (answer : Except PyExc Found) : Prop :=
  match expected with
  | some found => answer = .ok found
  | none => ∃ text, answer = .error (.error "ValueError" text)

/-- The answer at a point is that of the innermost block that provides the connection
asked for. Nothing is asked of `use_transaction` without a name. -/
def Point.Correct (p : Point) : Prop :=
  match p.query with
  | .useSession name =>
    Answers ((innermost p.path (connectionOf p.path name)).map fun c => .session c.session) p.answer
  | .useTransaction (some name) =>
    Answers ((innermost p.path name).map fun c => .transaction c.tx) p.answer
  | .useTransaction none => True

/-- A name is left out or is that of the current default connection. -/
def NamesDefault (path : List Block) (name : Option String) : Prop :=
  ∀ n, name = some n → n = defaultOf path

def Block.name : Block → Option String
  | .intercept _ _ _ _ _ _ => none
  | .providingSession _ _ name => name
  | .providingTransaction _ name => name
  | .providingNewSession name _ _ _ _ => name
  | .providingNewOrCurrentSession name _ _ _ _ => name

/-- Every name given to a block or to `use_session` is the default one there. -/
def Code.NamesDefault : Code → List Block → Prop
  | .done, _ => True
  | .raise _, _ => True
  | .query (.useSession name) next, path =>
    NamedSessions.NamesDefault path name ∧ next.NamesDefault path
  | .query (.useTransaction _) next, path => next.NamesDefault path
  | .within b body next, path =>
    NamedSessions.NamesDefault path b.name ∧ body.NamesDefault (b :: path) ∧ next.NamesDefault path
  | .attempt body next, path => body.NamesDefault path ∧ next.NamesDefault path

/-- The variables say what the blocks around the point provide. -/
structure Mirrors (ctx : Ctx) (path : List Block) : Prop where
  manager : ctx.sessionManager = managerOf path
  default : ctx.defaultName = defaultOf path
  sessions : ∀ name, ctx.sessionMap name = innermost path name

section Mirroring

variable {ctx entered : Ctx} {path : List Block}

theorem connectionOf_default {name : Option String} (h : NamesDefault path name) :
    connectionOf path name = defaultOf path := by
  cases name with
  | none => rfl
  | some n => exact h n rfl

/-- A name that is left out, or is the default, is the connection's. -/
theorem Mirrors.ensureName (h : Mirrors ctx path) {name : Option String}
    (hn : NamesDefault path name) :
    ensureName ctx name = connectionOf path name := by
  rw [connectionOf_default hn, ← h.default]
  rfl

theorem innermost_provided {b : Block} {connection : String} {p : PersistenceCtx}
    (h : provides path (innermost path) b = some (connection, p)) (name : String) :
    innermost (b :: path) name = Function.update (innermost path) connection (some p) name := by
  simp only [innermost, h, Function.update_apply]

theorem innermost_unprovided {b : Block} (h : provides path (innermost path) b = none)
    (name : String) :
    innermost (b :: path) name = innermost path name := by
  simp only [innermost, h]

/-- A block other than an interceptor that provides the default connection. -/
theorem Mirrors.provided (h : Mirrors ctx path) {b : Block} {name : Option String}
    {session : Session}
    {tx : Nat} (hn : NamesDefault path name)
    (hp : provides path (innermost path) b = some (connectionOf path name, ⟨session, tx⟩))
    (hd : defaultOf (b :: path) = defaultOf path) (hm : managerOf (b :: path) = managerOf path) :
    Mirrors (provide ctx session tx name) (b :: path) where
  manager := by
    rw [hm]
    exact h.manager
  default := by
    rw [hd]
    exact h.default
  sessions := by
    intro other
    have hmap : ctx.sessionMap = innermost path := funext h.sessions
    rw [innermost_provided hp, provide, h.ensureName hn, hmap]

/-- Entering a session block keeps the variables in step with the path. -/
theorem Mirrors.intercepted (h : Mirrors ctx path) {connectionName : String} {inject : Bool}
    {session tx : Nat} {opens commits : Reply}
    (he : enter ctx (.intercept connectionName inject session tx opens commits) = .ok entered) :
    Mirrors entered (.intercept connectionName inject session tx opens commits :: path) := by
  have hmap : ctx.sessionMap = innermost path := funext h.sessions
  cases inject with
  | false =>
    obtain rfl : { ctx with sessionManager := some connectionName } = entered := by
      simpa [enter] using he
    refine ⟨rfl, h.default, ?_⟩
    intro name
    rw [innermost_unprovided (by simp [provides])]
    exact h.sessions name
  | true =>
    cases opens with
    | error e => simp [enter, Except.map] at he
    | ok reply =>
      have hent : provide ⟨some connectionName, connectionName, ctx.sessionMap⟩
          ⟨session, connectionName⟩ tx (some connectionName) = entered := by
        simpa [enter, Except.map] using he
      subst hent
      refine ⟨rfl, rfl, ?_⟩
      intro name
      have hfirst : provides path (innermost path)
          (.intercept connectionName true session tx (.ok reply) commits) =
            some (connectionName, ⟨⟨session, connectionName⟩, tx⟩) := by simp [provides]
      rw [innermost_provided hfirst, ← hmap]
      rfl

theorem Mirrors.newSession (h : Mirrors ctx path) {b : Block} {name : Option String}
    {session tx : Nat}
    {opens : Reply} (hn : NamesDefault path name)
    (he : provideNew ctx name session tx opens = .ok entered)
    (hp : provides path (innermost path) b =
      (managerOf path).map fun engine => (connectionOf path name, ⟨⟨session, engine⟩, tx⟩))
    (hd : defaultOf (b :: path) = defaultOf path) (hm : managerOf (b :: path) = managerOf path) :
    Mirrors entered (b :: path) := by
  obtain ⟨engine, hmanager, rfl⟩ := provideNew_ok he
  apply h.provided hn ?_ hd hm
  rw [hp, ← h.manager, hmanager]
  rfl

/-- Entering a block keeps the variables in step, if its name is the default one. -/
theorem enter_mirrors (h : Mirrors ctx path) {b : Block} (hn : NamesDefault path b.name)
    (he : enter ctx b = .ok entered) : Mirrors entered (b :: path) := by
  cases b with
  | intercept connectionName inject session tx opens commits => exact h.intercepted he
  | providingSession session tx name =>
    obtain rfl : provide ctx session tx name = entered := by simpa [enter] using he
    exact h.provided hn rfl rfl rfl
  | providingTransaction tx name =>
    cases hs : ctx.sessionMap (ensureName ctx name) with
    | none => simp [enter, hs] at he
    | some current =>
      obtain rfl : provide ctx current.session tx (some (ensureName ctx name)) = entered := by
        simpa [enter, hs] using he
      have hname : NamesDefault path name := hn
      have heq := h.ensureName hname
      have hresolved : NamesDefault path (some (ensureName ctx name)) := by
        rintro n ⟨⟩
        rw [heq, connectionOf_default hname]
      rw [heq, h.sessions] at hs
      have hprovides : provides path (innermost path) (.providingTransaction tx name) =
          some (connectionOf path (some (ensureName ctx name)), ⟨current.session, tx⟩) := by
        simp only [provides, hs, heq]
        rfl
      exact h.provided hresolved hprovides rfl rfl
  | providingNewSession name session tx opens commits => exact h.newSession hn he rfl rfl rfl
  | providingNewOrCurrentSession name session tx opens commits =>
    have hname : NamesDefault path name := hn
    have hcurrent :
        ctx.sessionMap (ensureName ctx name) = innermost path (connectionOf path name) := by
      rw [h.ensureName hname, h.sessions]
    by_cases hs : (innermost path (connectionOf path name)).isSome = true
    · obtain rfl : ctx = entered := by simpa [enter, hcurrent, hs] using he
      refine ⟨h.manager, h.default, ?_⟩
      intro other
      rw [innermost_unprovided (by simp [provides, hs])]
      exact h.sessions other
    · rw [enter, hcurrent, if_neg hs] at he
      exact h.newSession hname he (by simp [provides, hs]) rfl rfl

end Mirroring

/-- The questions are answered right where the variables are in step with the blocks. -/
theorem ask_correct {ctx : Ctx} {path : List Block} (h : Mirrors ctx path) {q : Query}
    (hq : ∀ name, q = .useSession name → NamesDefault path name) :
    Point.Correct ⟨path, q, ask ctx q⟩ := by
  cases q with
  | useSession name =>
    have hname := hq name rfl
    simp only [Point.Correct, ask, h.ensureName hname, h.sessions]
    cases innermost path (connectionOf path name) with
    | none => exact ⟨_, rfl⟩
    | some current => rfl
  | useTransaction name =>
    cases name with
    | none => trivial
    | some n =>
      simp only [Point.Correct, ask, Option.bind_some, h.sessions]
      cases innermost path n with
      | none => exact ⟨_, rfl⟩
      | some current => rfl

/-- By induction on the code: every use of a session gives the session of its connection. -/
theorem run_correct {code : Code} {path : List Block} {ctx : Ctx} (hcode : code.NamesDefault path)
    (h : Mirrors ctx path) : ∀ p ∈ (run code path ctx).1, p.Correct := by
  induction code generalizing path ctx with
  | done => simp [run]
  | raise e => simp [run]
  | query q next ih =>
    have hq : (∀ name, q = .useSession name → NamesDefault path name) ∧ next.NamesDefault path := by
      cases q with
      | useSession name =>
        refine ⟨?_, hcode.2⟩
        rintro name' ⟨⟩
        exact hcode.1
      | useTransaction name => exact ⟨by simp, hcode⟩
    intro p hp
    obtain rfl | hp := List.mem_cons.mp hp
    · exact ask_correct h hq.1
    · exact ih hq.2 h p hp
  | within b body next ihBody ihNext =>
    obtain ⟨hname, hbody, hnext⟩ := hcode
    rw [run]
    cases he : enter ctx b with
    | error e => simp
    | ok entered =>
      have hinside := ihBody hbody (enter_mirrors h hname he)
      have hleft : leave ctx (run body (b :: path) entered).2.2 b = ctx := by
        rw [run_restores, leave_enter he]
      simp only [hleft]
      split
      · exact hinside
      · intro p hp
        obtain hp | hp := List.mem_append.mp hp
        · exact hinside p hp
        · exact ihNext hnext h p hp
  | attempt body next ihBody ihNext =>
    obtain ⟨hbody, hnext⟩ := hcode
    rw [run]
    simp only [run_restores]
    intro p hp
    obtain hp | hp := List.mem_append.mp hp
    · exact ihBody hbody h p hp
    · exact ihNext hnext h p hp

theorem mirrors_start : Mirrors {} [] := ⟨rfl, rfl, fun _ => rfl⟩

/-- In code whose names are all those of the current default connection, every point gets
the session and transaction of the innermost block that provides the connection; and any
code leaves the variables as it found them. -/
theorem named_sessions (code : Code) (hcode : code.NamesDefault []) :
    (∀ p ∈ (run code [] {}).1, p.Correct) ∧
      ∀ (part : Code) (path : List Block) (ctx : Ctx), (run part path ctx).2.2 = ctx :=
  ⟨run_correct hcode mirrors_start, run_restores⟩

/-- The two interceptors of a service with two databases. -/
def mainDb : Block := .intercept "default" true 0 0 (.ok ()) (.ok ())

def analyticsDb : Block := .intercept "analytics" true 1 1 (.ok ()) (.ok ())

/-- Code that opens a session of its own inside both, by name, and asks without one. -/
def report : Code :=
  .within mainDb (.within analyticsDb
    (.within (.providingNewSession (some "analytics") 2 2 (.ok ()) (.ok ()))
      (.query (.useSession none) (.query (.useTransaction (some "default")) .done)) .done) .done)
        .done

/-- A report that reads one connection inside another. -/
theorem report_correct :
    report.NamesDefault [] ∧ (∀ p ∈ (run report [] {}).1, p.Correct) := by
  have hnames : report.NamesDefault [] := by
    simp [report, Code.NamesDefault, NamesDefault, Block.name, mainDb, analyticsDb, defaultOf]
  exact ⟨hnames, (named_sessions report hnames).1⟩

/-- Inside both, `use_session("default")` answers with the session of the other database. -/
theorem default_session_mixed_up :
    ¬∀ code : Code, ∀ p ∈ (run code [] {}).1, p.Correct := by
  intro h
  have hpoint :=
    h (.within mainDb (.within analyticsDb (.query (.useSession (some "default")) .done)
    .done) .done) ⟨[analyticsDb, mainDb], .useSession (some "default"),
      .ok (.session ⟨1, "analytics"⟩)⟩
    (by simp [run, enter, outcome, mainDb, analyticsDb, provide, ensureName, ask, Except.map])
  simp [Point.Correct, innermost, provides, connectionOf, Answers, mainDb, analyticsDb] at hpoint

end NamedSessions

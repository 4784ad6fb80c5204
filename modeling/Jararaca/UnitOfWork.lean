import Jararaca.Programs
import Jararaca.Messages

/-!
# The unit of work

`UnitOfWorkContextProvider.__call__` of core/uow.py: it enters the interceptor
contexts in order, runs the body and exits them in reverse, passing on the
exception that is pending. A context is what one transaction sees of it: how its
`__aenter__` ends and how its `__aexit__` answers each exception, with the effects
both have outside.
-/
namespace UnitOfWork

open Programs Messages

variable {σ ε : Type}

/-- One interceptor context in one transaction. `exit` is given the pending
exception; it returns whether it suppresses it, or raises. -/
structure Context (ε : Type) where
  enter : Reply × List ε
  exit : Option PyExc → Except PyExc Bool × List ε

/-- What a unit of work does that can be seen from outside, with the position of
the context in the list of entered contexts. -/
inductive UowEvent (ε : Type) where
  | entered (position : Nat)
  | exited (position : Nat) (exception : Option PyExc)
  | exitFailed (position : Nat) (exception : PyExc)
  | effect (position : Nat) (effect : ε)
  deriving DecidableEq, Repr

/-- States that keep a trace of the events of their unit of work. -/
class Traced (σ : Type) (ε : outParam Type) where
  record : List (UowEvent ε) → σ → σ
  record_nil : ∀ s, record [] s = s
  record_record : ∀ first second s, record second (record first s) = record (first ++ second) s

def endsIteration : PyExc → Bool
  | .error kind _ => kind == "StopIteration" || kind == "StopAsyncIteration"
  | _ => false

/-- An exception as it leaves an `asynccontextmanager` whose generator raised it. An async
generator turns the end of an iteration into a `RuntimeError`, and the manager turns
that back only for the exception that was thrown at the yield. -/
def letOut (thrown : Option PyExc) : PyExc → PyExc
  | .error kind text =>
    if endsIteration (.error kind text) && thrown != some (.error kind text) then
      .error "RuntimeError" ("async generator raised " ++ kind)
    else .error kind text
  | e => e

/-- `contextlib.asynccontextmanager` over a generator with one yield: `before` is
the code up to the yield, `after` the rest, given what was thrown at the yield. A
generator that ends after a throw suppresses it, one that raises the thrown
exception again does not. -/
def Context.ofGenerator (before : Prog (List ε) PyExc Unit)
    (after : Option PyExc → Prog (List ε) PyExc Unit) : Context ε where
  enter := ((before []).1.mapError (letOut none), (before []).2)
  exit exc := match exc, after exc [] with
    | none, (.ok _, effects) => (.ok false, effects)
    | some _, (.ok _, effects) => (.ok true, effects)
    | none, (.error e, effects) => (.error (letOut none e), effects)
    | some thrown, (.error e, effects) =>
      if e = thrown then (.ok false, effects) else (.error (letOut (some thrown) e), effects)

theorem Context.ofGenerator_exit_effects (before : Prog (List ε) PyExc Unit)
    (after : Option PyExc → Prog (List ε) PyExc Unit) (exc : Option PyExc) :
    ((Context.ofGenerator before after).exit exc).2 = (after exc []).2 := by
  cases hr : after exc [] with
  | mk r effects =>
    cases exc with
    | none => cases r <;> simp [Context.ofGenerator, hr]
    | some thrown =>
      cases r with
      | ok u => simp [Context.ofGenerator, hr]
      | error e => by_cases he : e = thrown <;> simp [Context.ofGenerator, hr, he]

variable [Traced σ ε]

/-- `for ctx in ctxs: await ctx.__aenter__()`, from position `n` on. -/
def enterAll (n : Nat) : List (Context ε) → Prog σ PyExc Unit
  | [] => pure ()
  | c :: cs => do
    Prog.modify (Traced.record (c.enter.2.map (.effect n)))
    Prog.ofExcept c.enter.1
    Prog.modify (Traced.record [.entered n])
    enterAll (n + 1) cs

/-- The exception pending after one context was exited with `exc`. -/
def pendingAfter (exc : Option PyExc) : Except PyExc Bool → Option PyExc
  | .ok suppressed => if suppressed && exc.isSome then none else exc
  | .error e => some e

/-- What is seen of one `__aexit__`. -/
def exitEvents (c : Context ε) (n : Nat) (exc : Option PyExc) : List (UowEvent ε) :=
  .exited n exc :: (c.exit exc).2.map (.effect n) ++
    match (c.exit exc).1 with
    | .ok _ => []
    | .error e => [.exitFailed n e]

/-- The exit loop, over the contexts in the order it visits them; it returns the
exception that is pending at its end. -/
def exitAll : List (Context ε × Nat) → Option PyExc → Prog σ PyExc (Option PyExc)
  | [], exc => pure exc
  | (c, n) :: cs, exc => do
    Prog.modify (Traced.record (exitEvents c n exc))
    exitAll cs (pendingAfter exc (c.exit exc).1)

/-- The contexts as the exit loop visits them, each with its position. -/
def exitOrder (ctxs : List (Context ε)) : List (Context ε × Nat) := ctxs.zipIdx.reverse

/-- `async with uow_context_provider(...)` around `body`. The `raise` of the except
clause is pending while the `finally` block runs: a suppressing context clears
what later contexts see, but the exception of the body still leaves the block. -/
def unitOfWork (ctxs : List (Context ε)) (body : Prog σ PyExc Unit) : Prog σ PyExc Unit := do
  Prog.tryExcept (enterAll 0 ctxs) (fun e => Prog.raise (letOut none e))
  let outcome ← Prog.attempt body
  let raised : Option PyExc := match outcome with
    | .ok _ => none
    | .error e => some e
  match ← exitAll (exitOrder ctxs) raised with
  | some e => Prog.raise (letOut raised e)
  | none => Prog.ofExcept outcome

def AllEnter (ctxs : List (Context ε)) : Prop := ∀ c ∈ ctxs, c.enter.1 = .ok ()

def raisedBy : Reply → Option PyExc
  | .ok _ => none
  | .error e => some e

def enterTrace (n : Nat) : List (Context ε) → List (UowEvent ε)
  | [] => []
  | c :: cs => c.enter.2.map (.effect n) ++ [.entered n] ++ enterTrace (n + 1) cs

def exitTrace : List (Context ε × Nat) → Option PyExc → List (UowEvent ε)
  | [], _ => []
  | (c, n) :: cs, exc => exitEvents c n exc ++ exitTrace cs (pendingAfter exc (c.exit exc).1)

/-- The exception pending at the end of the exit loop. -/
def exitPending : List (Context ε × Nat) → Option PyExc → Option PyExc
  | [], exc => exc
  | (c, _) :: cs, exc => exitPending cs (pendingAfter exc (c.exit exc).1)

/-- How the `async with` block ends. -/
def leaves (pending : Option PyExc) (outcome : Reply) : Reply :=
  match pending with
  | some e => .error (letOut (raisedBy outcome) e)
  | none => outcome

/-- One round of the enter loop. -/
theorem enterAll_cons_ok {c : Context ε} (h : c.enter.1 = .ok ()) (cs : List (Context ε)) (n : Nat)
    (s : σ) : enterAll n (c :: cs) s = enterAll (n + 1) cs
      (Traced.record (c.enter.2.map (.effect n) ++ [.entered n]) s) := by
  simp [enterAll, Prog.bind_run, h, Traced.record_record]

theorem enterAll_cons_error {c : Context ε} {e : PyExc} (h : c.enter.1 = .error e)
    (cs : List (Context ε)) (n : Nat) (s : σ) :
    enterAll n (c :: cs) s = (.error e, Traced.record (c.enter.2.map (.effect n)) s) := by
  simp [enterAll, Prog.bind_run, h]

theorem enterAll_run (ctxs : List (Context ε)) (n : Nat) (s : σ) (h : AllEnter ctxs) :
    enterAll n ctxs s = (.ok (), Traced.record (enterTrace n ctxs) s) := by
  induction ctxs generalizing n s with
  | nil => simp [enterAll, enterTrace, Traced.record_nil]
  | cons c cs ih =>
    rw [enterAll_cons_ok (h c (by simp)), ih _ _ (fun d hd => h d (by simp [hd])),
      Traced.record_record, enterTrace]

/-- A context that does not enter ends the block before its body starts. -/
theorem enterAll_fails (ctxs : List (Context ε)) (n : Nat) (s : σ) (h : ¬AllEnter ctxs) :
    ∃ e events, enterAll n ctxs s = (.error e, Traced.record events s) := by
  induction ctxs generalizing n s with
  | nil => exact absurd (fun c hc => by simp at hc) h
  | cons c cs ih =>
    cases hc : c.enter.1 with
    | error e => exact ⟨e, _, enterAll_cons_error hc cs n s⟩
    | ok u =>
      have hcs : ¬AllEnter cs := by
        intro hall
        apply h
        intro d hd
        rcases List.mem_cons.mp hd with rfl | hd
        · exact hc
        · exact hall d hd
      obtain ⟨e, events, he⟩ := ih (n + 1)
        (Traced.record (c.enter.2.map (.effect n) ++ [.entered n]) s) hcs
      refine ⟨e, c.enter.2.map (.effect n) ++ [.entered n] ++ events, ?_⟩
      rw [enterAll_cons_ok hc, he, Traced.record_record]

theorem exitAll_run (cs : List (Context ε × Nat)) (exc : Option PyExc) (s : σ) :
    exitAll cs exc s = (.ok (exitPending cs exc), Traced.record (exitTrace cs exc) s) := by
  induction cs generalizing exc s with
  | nil => simp [exitAll, exitPending, exitTrace, Traced.record_nil]
  | cons p cs ih =>
    obtain ⟨c, n⟩ := p
    simp only [exitAll, exitPending, exitTrace, Prog.bind_run, Prog.modify_run, ih,
      Traced.record_record]

/-- The whole block, when a context does not enter. -/
theorem unitOfWork_unentered {ctxs : List (Context ε)} {s t : σ} {e : PyExc}
    (h : enterAll 0 ctxs s = (.error e, t)) (body : Prog σ PyExc Unit) :
    unitOfWork ctxs body s = (.error (letOut none e), t) :=
  Prog.bind_error (Prog.tryExcept_error h _) _

/-- The whole block, when every context enters. -/
theorem unitOfWork_run (ctxs : List (Context ε)) (body : Prog σ PyExc Unit) (s : σ)
    (h : AllEnter ctxs) {r : Reply} {t : σ}
    (hb : body (Traced.record (enterTrace 0 ctxs) s) = (r, t)) :
    unitOfWork ctxs body s =
      (leaves (exitPending (exitOrder ctxs) (raisedBy r)) r,
        Traced.record (exitTrace (exitOrder ctxs) (raisedBy r)) t) := by
  simp only [unitOfWork, Prog.bind_run, Prog.tryExcept_ok (enterAll_run ctxs 0 s h),
    Prog.attempt_run, hb]
  cases r with
  | ok u =>
    simp only [exitAll_run, raisedBy]
    cases exitPending (exitOrder ctxs) none <;> simp [leaves, raisedBy]
  | error e =>
    simp only [exitAll_run, raisedBy]
    cases exitPending (exitOrder ctxs) (some e) <;> simp [leaves, raisedBy]

/-- Every context of the exit loop is given an exception. -/
def Unsuppressed : List (Context ε × Nat) → Option PyExc → Prop
  | [], _ => True
  | (c, _) :: cs, exc => exc.isSome = true ∧ Unsuppressed cs (pendingAfter exc (c.exit exc).1)

/-- No context of the exit loop raises. -/
def ExitsCleanly : List (Context ε × Nat) → Option PyExc → Prop
  | [], _ => True
  | (c, _) :: cs, exc =>
    (∃ suppressed, (c.exit exc).1 = .ok suppressed) ∧
      ExitsCleanly cs (pendingAfter exc (c.exit exc).1)

section Traces

variable {ctxs : List (Context ε)} {cs : List (Context ε × Nat)} {exc : Option PyExc} {n p : Nat}

theorem mem_exitEvents_exited {c : Context ε} {e : Option PyExc} :
    .exited p e ∈ exitEvents c n exc ↔ p = n ∧ e = exc := by
  unfold exitEvents
  cases (c.exit exc).1 <;> simp

theorem mem_exitEvents_exitFailed {c : Context ε} {e : PyExc} :
    .exitFailed p e ∈ exitEvents c n exc ↔ p = n ∧ (c.exit exc).1 = .error e := by
  unfold exitEvents
  cases (c.exit exc).1 with
  | ok b => simp
  | error e' => simp [eq_comm]

theorem mem_exitEvents_effect {c : Context ε} {a : ε} :
    .effect p a ∈ exitEvents c n exc ↔ p = n ∧ a ∈ (c.exit exc).2 := by
  have hmap : UowEvent.effect p a ∈ (c.exit exc).2.map (UowEvent.effect n) ↔
      p = n ∧ a ∈ (c.exit exc).2 := by
    rw [List.mem_map]
    constructor
    · rintro ⟨b, hb, heq⟩
      cases heq
      exact ⟨rfl, hb⟩
    · rintro ⟨rfl, ha⟩
      exact ⟨a, ha, rfl⟩
  unfold exitEvents
  cases (c.exit exc).1 <;> simpa using hmap

/-- The exit loop shows an exception to every context exactly where none suppresses it. -/
theorem unsuppressed_iff :
    (∀ p e, .exited p e ∈ exitTrace cs exc → e.isSome = true) ↔ Unsuppressed cs exc := by
  induction cs generalizing exc with
  | nil => simp [exitTrace, Unsuppressed]
  | cons q cs ih =>
    obtain ⟨c, n⟩ := q
    rw [Unsuppressed, ← ih]
    simp only [exitTrace, List.mem_append, mem_exitEvents_exited]
    constructor
    · intro h
      exact ⟨h n exc (.inl ⟨rfl, rfl⟩), fun p e he => h p e (.inr he)⟩
    · rintro ⟨hexc, hrest⟩ p e (⟨-, rfl⟩ | he)
      · exact hexc
      · exact hrest p e he

/-- Without an exception to start with, the innermost context sees none. -/
theorem unsuppressed_none (h : Unsuppressed (exitOrder ctxs) none) : ctxs = [] := by
  have hempty : exitOrder ctxs = [] := by
    cases ho : exitOrder ctxs with
    | nil => rfl
    | cons q cs =>
      rw [ho] at h
      cases h.1
  simpa [exitOrder] using hempty

/-- An exit that raises shows in the trace. -/
theorem exitsCleanly_iff :
    (∀ p e, .exitFailed p e ∉ exitTrace cs exc) ↔ ExitsCleanly cs exc := by
  induction cs generalizing exc with
  | nil => simp [exitTrace, ExitsCleanly]
  | cons q cs ih =>
    obtain ⟨c, n⟩ := q
    rw [ExitsCleanly, ← ih]
    simp only [exitTrace, List.mem_append, mem_exitEvents_exitFailed, not_or]
    constructor
    · intro h
      refine ⟨?_, fun p e => (h p e).2⟩
      cases hc : (c.exit exc).1 with
      | ok b => exact ⟨b, rfl⟩
      | error e => exact absurd ⟨rfl, hc⟩ (h n e).1
    · rintro ⟨⟨b, hb⟩, hrest⟩ p e
      exact ⟨by simp [hb], hrest p e⟩

variable (exc) in
/-- Every context is exited, with all the effects its exit has. -/
theorem exitTrace_exits {c : Context ε} (h : (c, p) ∈ cs) :
    ∃ e, .exited p e ∈ exitTrace cs exc ∧
      ∀ a ∈ (c.exit e).2, .effect p a ∈ exitTrace cs exc := by
  induction cs generalizing exc with
  | nil => simp at h
  | cons q cs ih =>
    obtain ⟨d, n⟩ := q
    simp only [exitTrace, List.mem_append, mem_exitEvents_exited, mem_exitEvents_effect]
    obtain heq | hmem := List.mem_cons.mp h
    · cases heq
      exact ⟨exc, .inl ⟨rfl, rfl⟩, fun a ha => .inl ⟨rfl, ha⟩⟩
    · obtain ⟨e, he, heff⟩ := ih (pendingAfter exc (d.exit exc).1) hmem
      exact ⟨e, .inr he, fun a ha => .inr (heff a ha)⟩

/-- An effect of the exit loop is an effect of the exit of its context. -/
theorem exitTrace_effect {a : ε} (h : .effect p a ∈ exitTrace cs exc) :
    ∃ c e, (c, p) ∈ cs ∧ .exited p e ∈ exitTrace cs exc ∧ a ∈ (c.exit e).2 := by
  induction cs generalizing exc with
  | nil => simp [exitTrace] at h
  | cons q cs ih =>
    obtain ⟨d, n⟩ := q
    simp only [exitTrace, List.mem_append, mem_exitEvents_exited, mem_exitEvents_effect] at h ⊢
    obtain ⟨rfl, ha⟩ | hrest := h
    · exact ⟨d, exc, by simp, .inl ⟨rfl, rfl⟩, ha⟩
    · obtain ⟨c, e, hmem, he, ha⟩ := ih hrest
      exact ⟨c, e, by simp [hmem], .inr he, ha⟩

theorem mem_exitOrder {c : Context ε} : (c, p) ∈ exitOrder ctxs ↔ ctxs[p]? = some c := by
  rw [exitOrder, List.mem_reverse, List.mem_zipIdx_iff_getElem?]

/-- What entering shows: each context once, and the effects of entering it. -/
theorem enterTrace_entered (h : .entered p ∈ enterTrace n ctxs) :
    n ≤ p ∧ ∃ c, ctxs[p - n]? = some c := by
  induction ctxs generalizing n with
  | nil => simp [enterTrace] at h
  | cons c cs ih =>
    simp only [enterTrace, List.mem_append, List.mem_map, List.mem_singleton, reduceCtorEq,
      and_false, exists_false, false_or, UowEvent.entered.injEq] at h
    obtain rfl | hrest := h
    · exact ⟨le_refl _, c, by simp⟩
    · obtain ⟨hle, d, hd⟩ := ih hrest
      have hp : p - n = p - (n + 1) + 1 := by omega
      exact ⟨by omega, d, by rw [hp, List.getElem?_cons_succ, hd]⟩

theorem enterTrace_effect {a : ε} (h : .effect p a ∈ enterTrace n ctxs) :
    n ≤ p ∧ ∃ c, ctxs[p - n]? = some c ∧ a ∈ c.enter.2 := by
  induction ctxs generalizing n with
  | nil => simp [enterTrace] at h
  | cons c cs ih =>
    simp only [enterTrace, List.mem_append, List.mem_map, List.mem_singleton, reduceCtorEq,
      or_false, UowEvent.effect.injEq] at h
    obtain ⟨b, hb, rfl, rfl⟩ | hrest := h
    · exact ⟨le_refl _, c, by simp, hb⟩
    · obtain ⟨hle, d, hd, ha⟩ := ih hrest
      have hp : p - n = p - (n + 1) + 1 := by omega
      exact ⟨by omega, d, by rw [hp, List.getElem?_cons_succ, hd], ha⟩

theorem entered_not_mem_exitTrace : .entered p ∉ exitTrace cs exc := by
  induction cs generalizing exc with
  | nil => simp [exitTrace]
  | cons q cs ih =>
    obtain ⟨c, n⟩ := q
    have hevents : .entered p ∉ exitEvents c n exc := by
      unfold exitEvents
      cases (c.exit exc).1 <;> simp
    simp [exitTrace, ih, hevents]

theorem exited_not_mem_enterTrace (e : Option PyExc) : .exited p e ∉ enterTrace n ctxs := by
  induction ctxs generalizing n with
  | nil => simp [enterTrace]
  | cons c cs ih => simp [enterTrace, ih]

/-- No exit stands in the trace of the entries. -/
theorem exitFailed_not_mem_enterTrace (e : PyExc) : .exitFailed p e ∉ enterTrace n ctxs := by
  induction ctxs generalizing n with
  | nil => simp [enterTrace]
  | cons c cs ih => simp [enterTrace, ih]

end Traces

section Frames

variable {F : Prog.Frame σ} (hr : ∀ events s, F.rel s (Traced.record events s))
include hr

theorem enterAll_keeps (ctxs : List (Context ε)) (n : Nat) : Prog.Keeps F (enterAll n ctxs) := by
  intro s
  by_cases h : AllEnter ctxs
  · rw [enterAll_run ctxs n s h]
    exact hr _ s
  · obtain ⟨e, events, he⟩ := enterAll_fails ctxs n s h
    rw [he]
    exact hr _ s

theorem exitAll_keeps (cs : List (Context ε × Nat)) (exc : Option PyExc) :
    Prog.Keeps F (exitAll cs exc) := by
  intro s
  rw [exitAll_run]
  exact hr _ s

/-- A unit of work stays inside every frame its body and its trace stay inside. -/
theorem unitOfWork_keeps (ctxs : List (Context ε)) {body : Prog σ PyExc Unit}
    (hb : Prog.Keeps F body) : Prog.Keeps F (unitOfWork ctxs body) := by
  apply Prog.Keeps.bind ((enterAll_keeps hr ctxs 0).tryExcept fun e =>
    Prog.Keeps.raise (letOut none e))
  intro _
  apply Prog.Keeps.bind hb.attempt
  intro outcome
  apply Prog.Keeps.bind (exitAll_keeps hr _ _)
  intro pending
  cases pending with
  | some e => exact Prog.Keeps.raise (letOut _ e)
  | none => exact Prog.Keeps.ofExcept outcome

end Frames

end UnitOfWork
